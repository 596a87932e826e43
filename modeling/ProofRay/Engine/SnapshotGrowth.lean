/- What a planned batch adds to a snapshot and what it keeps: the entries of the indexes, and the
   commands its receipts call applied. -/

import ProofRay.Engine.IngressReplay

namespace ProofRay.Engine

open Lib.Guard

def Entered (c : Crypto) (index : WalIndex) (txindex : TxIdIndex) (cmd : CommitCommand)
    (n : Int) : Prop :=
  ∃ op digest f, cmd.op = .known op ∧
    contentDigest c op cmd.factId cmd.factVersion cmd.value = .ok digest ∧
    txindex.m.get cmd.operationId = some (digest, n) ∧ index.get cmd.factId = some f ∧
    (f = ⟨cmd.factVersion, op, cmd.value⟩ ∨ cmd.factVersion < f.version)

/-- The snapshot holds the command at a sequence, which is durable and visible in it. -/
structure L0Snapshot.Contains (c : Crypto) (s : L0Snapshot) (cmd : CommitCommand) (n : Int) :
    Prop where
  entered : Entered c s.index s.txindex cmd n
  durable : n ≤ s.walHead.durableThroughSeq
  visible : n ≤ s.visibleThroughSeq

/-- Indexes that have grown: every recorded id as it was, every fact as it was or newer. -/
structure IndexGrowth (index index' : WalIndex) (txindex txindex' : TxIdIndex) : Prop where
  ids : ∀ id e, txindex.m.get id = some e → txindex'.m.get id = some e
  facts : ∀ k f, index.get k = some f → ∃ f', index'.get k = some f' ∧
    (f' = f ∨ f.version < f'.version)

theorem IndexGrowth.refl (index : WalIndex) (txindex : TxIdIndex) :
    IndexGrowth index index txindex txindex :=
  ⟨fun _ _ held => held, fun _ f held => ⟨f, held, .inl rfl⟩⟩

theorem IndexGrowth.trans {i₁ i₂ i₃ : WalIndex} {t₁ t₂ t₃ : TxIdIndex}
    (first : IndexGrowth i₁ i₂ t₁ t₂) (second : IndexGrowth i₂ i₃ t₂ t₃) :
    IndexGrowth i₁ i₃ t₁ t₃ := by
  constructor
  · intro id e held
    exact second.ids id e (first.ids id e held)
  · intro k f held
    obtain ⟨f', held', newer⟩ := first.facts k f held
    obtain ⟨f'', held'', newest⟩ := second.facts k f' held'
    refine ⟨f'', held'', ?_⟩
    rcases newest with rfl | above
    · exact newer
    · rcases newer with rfl | below
      · exact .inr above
      · exact .inr (below.trans above)

theorem Entered.grow {c : Crypto} {index index' : WalIndex} {txindex txindex' : TxIdIndex}
    {cmd : CommitCommand} {n : Int} (entered : Entered c index txindex cmd n)
    (growth : IndexGrowth index index' txindex txindex') : Entered c index' txindex' cmd n := by
  obtain ⟨op, digest, f, known, packed, id, fact, version⟩ := entered
  obtain ⟨f', fact', newer⟩ := growth.facts _ f fact
  refine ⟨op, digest, f', known, packed, growth.ids _ _ id, fact', ?_⟩
  rcases newer with rfl | above
  · exact version
  · rcases version with rfl | below
    · exact .inr above
    · exact .inr (below.trans above)

section

variable {c : Crypto} {key : Bytes} {scopeId segmentId : Int} {base : BaseView} {u8Domain : Bool}

variable {cmd : CommitCommand}

variable {txindex : TxIdIndex} {index : WalIndex}

theorem growth_of_write {op : Op} {digest : Bytes} (n : Int)
    (h : classifyCommand c base u8Domain index txindex cmd = .ok (.write op digest)) :
    IndexGrowth index (index.apply cmd.factId cmd.factVersion op cmd.value).2 txindex
        (txindex.record cmd.operationId digest n) ∧
      Entered c (index.apply cmd.factId cmd.factVersion op cmd.value).2
        (txindex.record cmd.operationId digest n) cmd n := by
  obtain ⟨known, -, -, packed, check, -, cur, current, above⟩ := classifyCommand_eq_write_iff.mp h
  have unseen : txindex.m.get cmd.operationId = none := by
    unfold TxIdIndex.check at check
    cases held : txindex.m.get cmd.operationId with
    | none => rfl
    | some e =>
      simp only [held] at check
      split at check <;> cases check
  have logged : preflight (index.get cmd.factId) op cmd.factVersion cmd.value = .applied := by
    rw [preflight_eq_applied_iff] at above ⊢
    intro f held
    rw [Option.mem_def] at held
    simp only [currentVersion, held, Option.some.injEq] at current
    subst current
    exact above f rfl
  rw [WalIndex.apply_of_preflight logged]
  refine ⟨⟨?_, ?_⟩, op, digest, ⟨cmd.factVersion, op, cmd.value⟩, known, packed, ?_, ?_, .inl rfl⟩
  · intro id e held
    have other : cmd.operationId ≠ id := by
      rintro rfl
      rw [unseen] at held
      cases held
    simpa only [TxIdIndex.record, Lib.Dict.get_set_ne _ _ other] using held
  · intro k f held
    simp only [WalIndex.get, Lib.Dict.get_set]
    by_cases same : cmd.factId = k
    · subst same
      have below := (preflight_eq_applied_iff _ _ _ _).mp logged f (Option.mem_def.mpr held)
      exact ⟨_, if_pos rfl, .inr below⟩
    · exact ⟨f, by rwa [if_neg same], .inl rfl⟩
  · simp only [TxIdIndex.record, Lib.Dict.get_set_self]
  · simp only [WalIndex.get, Lib.Dict.get_set_self]

/-- The answers of the preflight: none of the statuses of the queue, and never `APPLIED`. -/
theorem classifyCommand_answer {status : Status} {walSeq : Option Int}
    (h : classifyCommand c base u8Domain index txindex cmd = .ok (.answer status walSeq)) :
    status ≠ .applied ∧ status ≠ .notAccepted ∧ status ≠ .commitUnknown := by
  unfold classifyCommand at h
  split at h
  · cases h
    decide
  · split at h
    · cases h
      decide
    · split at h
      · cases h
        decide
      · simp only [bind_eq_ok, pure_eq_ok] at h
        obtain ⟨digest, -, verdict⟩ := h
        unfold commandVerdict at verdict
        split at verdict
        · cases verdict
          decide
        · cases verdict
          decide
        · cases verdict
          decide
        · cases verdict
          decide
        · split at verdict
          · cases verdict
            decide
          · split at verdict <;> cases verdict <;> decide

/-- What a stretch of planning leaves: indexes that have grown, and for each of its receipts a
status of the planner and, when it is `APPLIED`, the command it speaks of in the indexes. -/
structure Planned (c : Crypto) (cmds : List CommitCommand) (st st' : PlanState)
    (given : List PlannedReceipt) : Prop where
  growth : IndexGrowth st.index st'.index st.txindex st'.txindex
  later : st.seq ≤ st'.seq
  statuses : ∀ receipt ∈ given, receipt.status ≠ .notAccepted ∧ receipt.status ≠ .commitUnknown
  applied : ∀ receipt ∈ given, receipt.status = .applied → st.frames.length < st'.frames.length ∧
    ∃ cmd ∈ cmds, ∃ n, cmd.enqueueTicket = receipt.ticket ∧ receipt.walSeq = some n ∧
      n < st'.seq ∧ Entered c st'.index st'.txindex cmd n

theorem planCommands_planned {cmds : List CommitCommand} {st st' : PlanState}
    (h : planCommands c key scopeId segmentId base u8Domain cmds st = .ok st') :
    ∃ given, st'.receipts = st.receipts ++ given ∧ st.frames.length ≤ st'.frames.length ∧
      Planned c cmds st st' given := by
  induction cmds generalizing st with
  | nil =>
    cases h
    exact ⟨[], by simp, le_rfl, .refl _ _, le_rfl, by simp, by simp⟩
  | cons cmd cmds ih =>
    simp only [planCommands, bind_eq_ok] at h
    obtain ⟨st₁, step, rest⟩ := h
    obtain ⟨given, receipts, frames, tail⟩ := ih rest
    rcases planCommand_cases step with
      ⟨status, walSeq, classified, rfl⟩ | ⟨op, digest, frame, classified, -, rfl⟩
    · obtain ⟨notApplied, accepted, certain⟩ := classifyCommand_answer classified
      refine ⟨⟨cmd.enqueueTicket, status, walSeq⟩ :: given, ?_, frames, tail.growth, tail.later,
        ?_, ?_⟩
      · rw [receipts, List.append_assoc, List.singleton_append]
      · intro receipt member
        rcases List.mem_cons.mp member with rfl | member
        · exact ⟨accepted, certain⟩
        · exact tail.statuses receipt member
      · intro receipt member applied
        rcases List.mem_cons.mp member with rfl | member
        · exact absurd applied notApplied
        · obtain ⟨more, cmd', among, rest⟩ := tail.applied receipt member applied
          exact ⟨more, cmd', List.mem_cons_of_mem _ among, rest⟩
    · obtain ⟨growth, entered⟩ := growth_of_write st.seq classified
      have longer : st.frames.length < (st.frames ++ [frame]).length := by
        rw [List.length_append, List.length_singleton]
        omega
      have later := tail.later
      simp only at later
      refine ⟨⟨cmd.enqueueTicket, .applied, some st.seq⟩ :: given, ?_, longer.le.trans frames,
        growth.trans tail.growth, by omega, ?_, ?_⟩
      · rw [receipts, List.append_assoc, List.singleton_append]
      · intro receipt member
        rcases List.mem_cons.mp member with rfl | member
        · exact ⟨by simp, by simp⟩
        · exact tail.statuses receipt member
      · intro receipt member applied
        refine ⟨longer.trans_le frames, ?_⟩
        rcases List.mem_cons.mp member with rfl | member
        · exact ⟨cmd, by simp, st.seq, rfl, rfl, by omega, entered.grow tail.growth⟩
        · obtain ⟨-, cmd', among, rest⟩ := tail.applied receipt member applied
          exact ⟨cmd', List.mem_cons_of_mem _ among, rest⟩

variable {snapshot : L0Snapshot} {hasher : Hasher} {commands : List CommitCommand}
  {plan : BatchPlan}

theorem L0Snapshot.Contains.candidate {n : Int} (contained : snapshot.Contains c cmd n)
    (h : prepareBatch c snapshot hasher commands key scopeId segmentId base u8Domain = .ok plan) :
    plan.candidateSnapshot.Contains c cmd n := by
  simp only [prepareBatch, bind_eq_ok, pure_eq_ok] at h
  obtain ⟨st, run, rfl⟩ := h
  obtain ⟨given, -, -, planned⟩ := planCommands_planned run
  have durable := contained.durable
  have later := planned.later
  simp only [PlanState.start] at later
  refine ⟨contained.entered.grow planned.growth, ?_, ?_⟩
  · simp only [PlanState.plan]
    omega
  · simp only [PlanState.plan]
    omega

/-- The receipts of a plan: never a status of the queue, and behind each `APPLIED` a command of
the batch that the candidate contains at the sequence of the receipt. -/
theorem prepareBatch_receipts
    (h : prepareBatch c snapshot hasher commands key scopeId segmentId base u8Domain = .ok plan) :
    ∀ receipt ∈ plan.receipts,
      receipt.status ≠ .notAccepted ∧ receipt.status ≠ .commitUnknown ∧
      (receipt.status = .applied → plan.frames ≠ [] ∧
        ∃ cmd ∈ commands, ∃ n, cmd.enqueueTicket = receipt.ticket ∧ receipt.walSeq = some n ∧
          plan.candidateSnapshot.Contains c cmd n) := by
  simp only [prepareBatch, bind_eq_ok, pure_eq_ok] at h
  obtain ⟨st, run, rfl⟩ := h
  obtain ⟨given, receipts, -, planned⟩ := planCommands_planned run
  intro receipt member
  have member : receipt ∈ given := by
    simpa only [PlanState.plan, receipts, PlanState.start, List.nil_append] using member
  obtain ⟨accepted, certain⟩ := planned.statuses receipt member
  refine ⟨accepted, certain, ?_⟩
  intro applied
  obtain ⟨more, cmd, among, n, ticket, seq, before, entered⟩ :=
    planned.applied receipt member applied
  refine ⟨?_, cmd, among, n, ticket, seq, entered, ?_, ?_⟩
  · intro none
    have none : st.frames = [] := none
    rw [none] at more
    exact absurd more (Nat.not_lt_zero _)
  · simp only [PlanState.plan]
    omega
  · simp only [PlanState.plan]
    omega

end

end ProofRay.Engine
