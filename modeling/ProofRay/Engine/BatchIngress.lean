/- No client command stops the planner, except one whose version passes the ingress tests
   and does not fit its slot (`horizon_batch.py`, `prepare_batch`). -/

import ProofRay.Engine.IngressReplay

namespace ProofRay.Engine

open Lib.Guard

section

variable {c : Crypto} {key : Bytes} {scopeId segmentId : Int} {base : BaseView} {u8Domain : Bool}

/-- A command the log can hold: it honours the ingress contract and its version fits the
`u32` of a frame. -/
def CommitCommand.representable (u8Domain : Bool) (cmd : CommitCommand) : Bool :=
  cmd.admitted u8Domain && decide (cmd.factVersion < 4294967296)

def CommitCommand.refusal (cmd : CommitCommand) : PlannedReceipt :=
  ⟨cmd.enqueueTicket, .invalidArgument, none⟩

variable {cmd : CommitCommand} {st st' : PlanState}

/-- Once the tests are passed the digest is computed, and its version slot is a `u32`. -/
theorem packable_of_classifyCommand {index : WalIndex} {txindex : TxIdIndex} {verdict : Verdict}
    (passed : cmd.admitted u8Domain = true)
    (h : classifyCommand c base u8Domain index txindex cmd = .ok verdict) : cmd.Packable := by
  unfold CommitCommand.admitted at passed
  unfold classifyCommand at h
  cases hop : cmd.op with
  | other text =>
    rw [hop] at passed
    cases passed
  | known op =>
    simp only [hop, Bool.and_eq_true] at passed h
    obtain ⟨canonical, inside⟩ := passed
    have domain : ¬ (u8Domain = true ∧ op = .put ∧ ¬ isU8Value cmd.value = true) := by
      intro outside
      simp [outside.1, outside.2.1, outside.2.2] at inside
    rw [if_neg (not_not.mpr canonical), if_neg domain, bind_eq_ok] at h
    obtain ⟨digest, packed, -⟩ := h
    simp only [contentDigest, bind_eq_ok] at packed
    obtain ⟨payload, -, fields, slots, -⟩ := packed
    have fits := fits_of_structPack slots (by trivial)
    exact fits.2.2.1.2

theorem planCommand_receipts
    (h : planCommand c key scopeId segmentId base u8Domain st cmd = .ok st') :
    ∃ receipt : PlannedReceipt, receipt.ticket = cmd.enqueueTicket ∧
      st'.receipts = st.receipts ++ [receipt] ∧
      ∀ receipts, planCommand c key scopeId segmentId base u8Domain
        { st with receipts := receipts } cmd =
          .ok { st' with receipts := receipts ++ [receipt] } := by
  rcases planCommand_cases h with
    ⟨status, walSeq, classified, rfl⟩ | ⟨op, digest, frame, classified, encoded, rfl⟩
  · refine ⟨⟨cmd.enqueueTicket, status, walSeq⟩, rfl, rfl, ?_⟩
    intro receipts
    simp only [planCommand, classified, ok_bind]
    rfl
  · refine ⟨⟨cmd.enqueueTicket, .applied, some st.seq⟩, rfl, rfl, ?_⟩
    intro receipts
    simp only [encodeOf, CommitCommand.frame, bind_eq_ok] at encoded
    obtain ⟨payload, packed, encoded⟩ := encoded
    simp only [planCommand, classified, ok_bind, packed, encoded]
    rfl

theorem planCommand_not_admitted (st : PlanState) (refused : cmd.admitted u8Domain = false) :
    planCommand c key scopeId segmentId base u8Domain st cmd =
      .ok { st with receipts := st.receipts ++ [cmd.refusal] } := by
  simp only [planCommand, classifyCommand_not_admitted st.index st.txindex refused, ok_bind]
  rfl

variable {cmds : List CommitCommand}

theorem packable_of_planCommands
    (h : planCommands c key scopeId segmentId base u8Domain cmds st = .ok st') :
    ∀ cmd ∈ cmds, cmd.admitted u8Domain = true → cmd.Packable := by
  induction cmds generalizing st with
  | nil => simp
  | cons head cmds ih =>
    simp only [planCommands, bind_eq_ok] at h
    obtain ⟨st₁, step, rest⟩ := h
    intro cmd member passed
    rcases List.mem_cons.mp member with rfl | member
    · simp only [planCommand, bind_eq_ok] at step
      obtain ⟨verdict, classified, -⟩ := step
      exact packable_of_classifyCommand passed classified
    · exact ih rest cmd member passed

theorem planCommands_receipts
    (h : planCommands c key scopeId segmentId base u8Domain cmds st = .ok st') :
    ∃ given : List PlannedReceipt, st'.receipts = st.receipts ++ given ∧
      given.map PlannedReceipt.ticket = cmds.map CommitCommand.enqueueTicket ∧
      (∀ p ∈ cmds.zip given, p.1.representable u8Domain = false → p.2 = p.1.refusal) ∧
      ∀ receipts, planCommands c key scopeId segmentId base u8Domain
        (cmds.filter (CommitCommand.representable u8Domain)) { st with receipts := receipts } =
          .ok { st' with receipts := receipts ++
            ((cmds.zip given).filter fun p => p.1.representable u8Domain).map Prod.snd } := by
  induction cmds generalizing st with
  | nil =>
    cases h
    exact ⟨[], by simp, rfl, by simp, by simp [planCommands]⟩
  | cons cmd cmds ih =>
    have packable := packable_of_planCommands h cmd (by simp)
    simp only [planCommands, bind_eq_ok] at h
    obtain ⟨st₁, step, rest⟩ := h
    obtain ⟨receipt, ticket, appended, again⟩ := planCommand_receipts step
    obtain ⟨given, all, tickets, refused, others⟩ := ih rest
    have whenUnfit : cmd.representable u8Domain = false →
        receipt = cmd.refusal ∧ st₁ = { st with receipts := st₁.receipts } := by
      intro unfit
      have notAdmitted : cmd.admitted u8Domain = false := by
        by_contra passed
        have passed := Bool.eq_true_of_not_eq_false passed
        have slot : cmd.factVersion < 4294967296 := packable passed
        simp [CommitCommand.representable, passed, slot] at unfit
      rw [planCommand_not_admitted st notAdmitted, Except.ok.injEq] at step
      subst step
      have same : [cmd.refusal] = [receipt] := List.append_cancel_left appended
      exact ⟨(List.head_eq_of_cons_eq same).symm, rfl⟩
    refine ⟨receipt :: given, ?_, ?_, ?_, ?_⟩
    · rw [all, appended, List.append_assoc, List.singleton_append]
    · rw [List.map_cons, List.map_cons, ticket, tickets]
    · intro p member unfit
      rw [List.zip_cons_cons, List.mem_cons] at member
      rcases member with rfl | member
      · exact (whenUnfit unfit).1
      · exact refused p member unfit
    · intro receipts
      let fits (p : CommitCommand × PlannedReceipt) : Bool := p.1.representable u8Domain
      by_cases fit : cmd.representable u8Domain = true
      · have keep : fits (cmd, receipt) = true := fit
        rw [List.zip_cons_cons, List.filter_cons_of_pos fit, List.filter_cons_of_pos keep,
          List.map_cons]
        simp only [planCommands, again receipts, ok_bind, others]
        rw [List.append_assoc, List.singleton_append]
      · -- nothing but the list of receipts has moved, and the others do not see it
        have drop : ¬ fits (cmd, receipt) = true := fit
        have same := (whenUnfit (Bool.eq_false_of_not_eq_true fit)).2
        rw [List.zip_cons_cons, List.filter_cons_of_neg fit, List.filter_cons_of_neg drop]
        rw [← others receipts]
        rw [same]

/-- What a batch owes its commands: a plan, one receipt a command in their order,
`INVALID_ARGUMENT` for those the log cannot hold, and for the others the receipts, frames
and candidate they would have had on their own. -/
def AnswersEach (c : Crypto) (key : Bytes) (scopeId segmentId : Int) (base : BaseView)
    (u8Domain : Bool) (snapshot : L0Snapshot) (hasher : Hasher)
    (commands : List CommitCommand) : Prop :=
  ∃ plan, prepareBatch c snapshot hasher commands key scopeId segmentId base u8Domain =
      .ok plan ∧
    plan.receipts.map PlannedReceipt.ticket = commands.map CommitCommand.enqueueTicket ∧
    (∀ p ∈ commands.zip plan.receipts, p.1.representable u8Domain = false → p.2 = p.1.refusal) ∧
    prepareBatch c snapshot hasher (commands.filter (CommitCommand.representable u8Domain)) key
        scopeId segmentId base u8Domain =
      .ok { plan with receipts :=
        ((commands.zip plan.receipts).filter fun p => p.1.representable u8Domain).map Prod.snd }

/-- Over the identity and the sequence of a log, a batch answers each of its commands
exactly when no version too large for its slot passes the ingress tests. -/
theorem prepareBatch_answersEach_iff (c : Crypto) (key : Bytes) (base : BaseView)
    (u8Domain : Bool) {snapshot : L0Snapshot} (hasher : Hasher) (commands : List CommitCommand)
    (scope : 0 ≤ scopeId ∧ scopeId < 4294967296) (segment : 0 ≤ segmentId ∧ segmentId < 4294967296)
    (durable : -1 ≤ snapshot.walHead.durableThroughSeq)
    (room : snapshot.walHead.durableThroughSeq + 1 + commands.length < 18446744073709551616) :
    AnswersEach c key scopeId segmentId base u8Domain snapshot hasher commands ↔
      ∀ cmd ∈ commands, cmd.admitted u8Domain = true → cmd.factVersion < 4294967296 := by
  constructor
  · rintro ⟨plan, planned, -⟩
    simp only [prepareBatch, bind_eq_ok] at planned
    obtain ⟨st, run, -⟩ := planned
    exact packable_of_planCommands run
  · intro slots
    obtain ⟨st, run⟩ := planCommands_ok c key base u8Domain (.start snapshot hasher) slots scope
      segment (by simp only [PlanState.start]; omega) room
    obtain ⟨given, all, tickets, refused, others⟩ := planCommands_receipts run
    have given_eq : given = st.receipts := by
      rw [all]
      rfl
    subst given_eq
    have alone := others []
    refine ⟨st.plan c snapshot scopeId segmentId, ?_, tickets, refused, ?_⟩
    · simp only [prepareBatch, run, ok_bind]
      rfl
    · have start : { PlanState.start snapshot hasher with receipts := [] } =
          PlanState.start snapshot hasher := rfl
      rw [start] at alone
      simp only [prepareBatch, alone, ok_bind]
      rfl

theorem prepareBatch_answersEach_firstPut :
    AnswersEach stdCrypto (zeros 32) 7 1 emptyBaseView true genesisSnapshot ⟨[]⟩
        [firstPut, { firstPut with op := .other "merge" }] ↔
      ∀ cmd ∈ [firstPut, { firstPut with op := .other "merge" }],
        cmd.admitted true = true → cmd.factVersion < 4294967296 :=
  prepareBatch_answersEach_iff stdCrypto (zeros 32) emptyBaseView true ⟨[]⟩ _ (by decide)
    (by decide) (by decide) (by decide)

end

def wideVersion : CommitCommand := { firstPut with factVersion := 4294967296 }

/-- The wide version passes the ingress tests and the digest cannot be packed: no receipt
is given, not even to the command before it. -/
theorem prepareBatch_raises :
    ¬ ∀ (c : Crypto) (key : Bytes) (base : BaseView) (u8Domain : Bool) (snapshot : L0Snapshot)
      (hasher : Hasher) (commands : List CommitCommand),
      AnswersEach c key 7 1 base u8Domain snapshot hasher commands := by
  intro always
  obtain ⟨plan, planned, -⟩ :=
    always stdCrypto (zeros 32) emptyBaseView true genesisSnapshot ⟨[]⟩ [wideVersion]
  have raised : prepareBatch stdCrypto genesisSnapshot ⟨[]⟩ [wideVersion] (zeros 32) 7 1
      emptyBaseView true = .error .structError := rfl
  rw [raised] at planned
  cases planned

end ProofRay.Engine
