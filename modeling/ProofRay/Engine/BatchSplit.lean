/- Group commit is transparent: how commands are cut into batches decides nothing, and over an empty
   base the planner and the single writer of the log agree byte for byte. -/

import ProofRay.Engine.SnapshotGrowth
import ProofRay.Engine.WalWriter

namespace ProofRay.Engine

open Lib.Guard

/-- What a chain of batches leaves: its receipts and frames in order, and where it ends. -/
structure Committed where
  receipts : List PlannedReceipt
  frames : List Bytes
  snapshot : L0Snapshot
  hasher : Hasher
  deriving DecidableEq

section

variable (c : Crypto) (key : Bytes) (scopeId segmentId : Int) (base : BaseView) (u8Domain : Bool)

def prepareBatches : List (List CommitCommand) → L0Snapshot → Hasher → Except PyError Committed
  | [], snapshot, hasher => .ok ⟨[], [], snapshot, hasher⟩
  | batch :: batches, snapshot, hasher => do
    let plan ← prepareBatch c snapshot hasher batch key scopeId segmentId base u8Domain
    let rest ← prepareBatches batches plan.candidateSnapshot plan.candidateHasher
    return { rest with
      receipts := plan.receipts ++ rest.receipts, frames := plan.frames ++ rest.frames }

def PlanState.committed (snapshot : L0Snapshot) (st : PlanState) : Committed :=
  ⟨st.receipts, st.frames, (st.plan c snapshot scopeId segmentId).candidateSnapshot, st.hasher⟩

variable {c key scopeId segmentId base u8Domain}

theorem planCommands_append (xs ys : List CommitCommand) (st : PlanState) :
    planCommands c key scopeId segmentId base u8Domain (xs ++ ys) st =
      planCommands c key scopeId segmentId base u8Domain xs st >>=
        planCommands c key scopeId segmentId base u8Domain ys := by
  induction xs generalizing st with
  | nil => rfl
  | cons x xs ih =>
    simp only [List.cons_append, planCommands]
    cases planCommand c key scopeId segmentId base u8Domain st x with
    | error e => rfl
    | ok st₁ => exact ih st₁

def PlanState.after (receipts : List PlannedReceipt) (frames : List Bytes) (st : PlanState) :
    PlanState :=
  { st with receipts := receipts ++ st.receipts, frames := frames ++ st.frames }

theorem planCommand_after (receipts : List PlannedReceipt) (frames : List Bytes) (st : PlanState)
    (cmd : CommitCommand) :
    planCommand c key scopeId segmentId base u8Domain (st.after receipts frames) cmd =
      (planCommand c key scopeId segmentId base u8Domain st cmd).map
        (PlanState.after receipts frames) := by
  simp only [planCommand, PlanState.after]
  cases classifyCommand c base u8Domain st.index st.txindex cmd with
  | error e => rfl
  | ok verdict =>
    cases verdict with
    | answer status walSeq =>
      simp only [ok_bind, List.append_assoc]
      rfl
    | write op digest =>
      simp only [ok_bind]
      cases valuePayload cmd.value with
      | error e => rfl
      | ok payload =>
        simp only [ok_bind]
        cases encodeFrame c key scopeId segmentId op st.seq cmd.operationId cmd.factId
            cmd.factVersion payload with
        | error e => rfl
        | ok frame =>
          simp only [ok_bind, List.append_assoc]
          rfl

theorem planCommands_after (receipts : List PlannedReceipt) (frames : List Bytes)
    (cmds : List CommitCommand) (st : PlanState) :
    planCommands c key scopeId segmentId base u8Domain cmds (st.after receipts frames) =
      (planCommands c key scopeId segmentId base u8Domain cmds st).map
        (PlanState.after receipts frames) := by
  induction cmds generalizing st with
  | nil => rfl
  | cons cmd cmds ih =>
    simp only [planCommands, planCommand_after]
    cases planCommand c key scopeId segmentId base u8Domain st cmd with
    | error e => rfl
    | ok st₁ => exact ih st₁

theorem start_candidate (snapshot : L0Snapshot) (st : PlanState) :
    (PlanState.start (st.plan c snapshot scopeId segmentId).candidateSnapshot st.hasher).after
      st.receipts st.frames = st := by
  obtain ⟨index, txindex, hasher, byteLen, frames, receipts, seq⟩ := st
  simp only [PlanState.start, PlanState.plan, PlanState.after, List.append_nil, sub_add_cancel]

theorem prepareBatches_eq_planCommands (batch : List CommitCommand)
    (batches : List (List CommitCommand)) (snapshot : L0Snapshot) (hasher : Hasher) :
    prepareBatches c key scopeId segmentId base u8Domain (batch :: batches) snapshot hasher =
      (planCommands c key scopeId segmentId base u8Domain (batch ++ batches.flatten)
        (.start snapshot hasher)).map (PlanState.committed c scopeId segmentId snapshot) := by
  induction batches generalizing batch snapshot hasher with
  | nil =>
    rw [List.flatten_nil, List.append_nil]
    simp only [prepareBatches, prepareBatch]
    cases planCommands c key scopeId segmentId base u8Domain batch (.start snapshot hasher) with
    | error e => rfl
    | ok st =>
      show Except.ok _ = Except.ok _
      simp only [PlanState.committed, PlanState.plan, List.append_nil]
  | cons next batches ih =>
    rw [planCommands_append, prepareBatches, prepareBatch]
    cases planCommands c key scopeId segmentId base u8Domain batch (.start snapshot hasher) with
    | error e => rfl
    | ok st =>
      -- the rest of the chain runs from the candidate, the single run from where it stands
      have rest := ih next (st.plan c snapshot scopeId segmentId).candidateSnapshot st.hasher
      have run : planCommands c key scopeId segmentId base u8Domain (next ++ batches.flatten) st =
          (planCommands c key scopeId segmentId base u8Domain (next ++ batches.flatten)
            (.start (st.plan c snapshot scopeId segmentId).candidateSnapshot st.hasher)).map
              (PlanState.after st.receipts st.frames) := by
        rw [← planCommands_after, start_candidate]
      show (do
        let rest ← prepareBatches c key scopeId segmentId base u8Domain (next :: batches)
          (st.plan c snapshot scopeId segmentId).candidateSnapshot st.hasher
        return { rest with
          receipts := st.receipts ++ rest.receipts, frames := st.frames ++ rest.frames }) =
        (planCommands c key scopeId segmentId base u8Domain (next ++ batches.flatten) st).map
          (PlanState.committed c scopeId segmentId snapshot)
      rw [rest, run]
      cases planCommands c key scopeId segmentId base u8Domain (next ++ batches.flatten)
          (.start (st.plan c snapshot scopeId segmentId).candidateSnapshot st.hasher) with
      | error e => rfl
      | ok st' => rfl

theorem prepareBatches_congr {batches batches' : List (List CommitCommand)}
    (same : batches.flatten = batches'.flatten) (some : batches ≠ []) (some' : batches' ≠ [])
    (snapshot : L0Snapshot) (hasher : Hasher) :
    prepareBatches c key scopeId segmentId base u8Domain batches snapshot hasher =
      prepareBatches c key scopeId segmentId base u8Domain batches' snapshot hasher := by
  obtain ⟨batch, rest, rfl⟩ := List.exists_cons_of_ne_nil some
  obtain ⟨batch', rest', rfl⟩ := List.exists_cons_of_ne_nil some'
  rw [List.flatten_cons, List.flatten_cons] at same
  rw [prepareBatches_eq_planCommands, prepareBatches_eq_planCommands, same]

end

/-- The call of `append` that a command stands for. -/
def CommitCommand.call (cmd : CommitCommand) : AppendCall :=
  ⟨cmd.op, cmd.factId, cmd.factVersion, cmd.value, cmd.operationId⟩

/-- The receipt as `append` gives it. -/
def PlannedReceipt.result (receipt : PlannedReceipt) : AppendResult :=
  ⟨receipt.status, receipt.walSeq⟩

namespace WalWriter

def appendEach (c : Crypto) : WalWriter → List AppendCall →
    Except PyError (WalWriter × List AppendResult)
  | w, [] => .ok (w, [])
  | w, call :: calls => do
    let (w', result) ← w.append c call
    let (last, results) ← appendEach c w' calls
    return (last, result :: results)

def snapshot (c : Crypto) (w : WalWriter) : L0Snapshot where
  index := w.index
  txindex := w.txindex
  visibleThroughSeq := w.nextSeq - 1
  walHead := ⟨w.scopeId, w.segmentId, w.firstSeq, w.nextSeq - 1, w.file.length, c.sha256 w.file,
    stateActive⟩

def movedTo (w : WalWriter) (st : PlanState) : WalWriter :=
  { w with index := st.index, txindex := st.txindex, nextSeq := st.seq, file := st.hasher.fed }

end WalWriter

section

variable {c : Crypto} {w : WalWriter}

theorem commandVerdict_empty (w : WalWriter) (op : Op) (cmd : CommitCommand) (digest : Bytes) :
    commandVerdict emptyBaseView w.index w.txindex op cmd digest =
      match w.appendVerdict op cmd.call digest with
      | some result => .answer result.status result.walSeq
      | none => .write op digest := by
  simp only [commandVerdict, WalWriter.appendVerdict, CommitCommand.call]
  cases w.txindex.check cmd.operationId digest with
  | dedupReplay => rfl
  | txidConflict => rfl
  | new =>
    simp only [classifyDedup, emptyBaseView, currentVersion]
    cases w.index.get cmd.factId with
    | none =>
      simp only
      cases preflight none op cmd.factVersion cmd.value <;> rfl
    | some cur =>
      simp only
      cases preflight (some cur) op cmd.factVersion cmd.value <;> rfl

theorem append_eq_classifyCommand (unsealed : w.isSealed = false) (cmd : CommitCommand) :
    w.append c cmd.call = (do
      match ← classifyCommand c emptyBaseView false w.index w.txindex cmd with
      | .answer status walSeq => return (w, ⟨status, walSeq⟩)
      | .write op digest =>
        let payload ← valuePayload cmd.value
        let frame ← encodeFrame c w.key w.scopeId w.segmentId op w.nextSeq cmd.operationId
          cmd.factId cmd.factVersion payload
        return ({ w with file := w.file ++ frame
                         index := (w.index.apply cmd.factId cmd.factVersion op cmd.value).2
                         txindex := w.txindex.record cmd.operationId digest w.nextSeq
                         nextSeq := w.nextSeq + 1 }, ⟨.applied, some w.nextSeq⟩)) := by
  unfold classifyCommand WalWriter.append
  simp only [CommitCommand.call, Bool.false_eq_true, false_and, if_false]
  cases cmd.op with
  | other text => rfl
  | known op =>
    simp only
    by_cases canonical :
        commandIsCanonical op cmd.factId cmd.factVersion cmd.value cmd.operationId = true
    · simp only [canonical, not_true_eq_false, if_false, unsealed, Bool.false_eq_true]
      cases contentDigest c op cmd.factId cmd.factVersion cmd.value with
      | error e => rfl
      | ok digest =>
        have verdict := commandVerdict_empty w op cmd digest
        simp only [CommitCommand.call] at verdict
        simp only [ok_bind, verdict]
        -- the word of the operation is in the call, and the verdict does not read it
        have unread : ∀ word, w.appendVerdict op
            ⟨word, cmd.factId, cmd.factVersion, cmd.value, cmd.operationId⟩ digest =
            w.appendVerdict op
              ⟨cmd.op, cmd.factId, cmd.factVersion, cmd.value, cmd.operationId⟩ digest :=
          fun _ => rfl
        rw [unread]
        cases w.appendVerdict op
            ⟨cmd.op, cmd.factId, cmd.factVersion, cmd.value, cmd.operationId⟩ digest with
        | some result => rfl
        | none => rfl
    · simp only [canonical]
      rfl

def PlanState.lastResult (st : PlanState) : AppendResult :=
  (st.receipts.getLast?.map PlannedReceipt.result).getD ⟨.applied, none⟩

theorem append_eq_planCommand (unsealed : w.isSealed = false) (st : PlanState)
    (cmd : CommitCommand) :
    (w.movedTo st).append c cmd.call =
      (planCommand c w.key w.scopeId w.segmentId emptyBaseView false st cmd).map fun st' =>
        (w.movedTo st', st'.lastResult) := by
  have still : (w.movedTo st).isSealed = false := unsealed
  rw [append_eq_classifyCommand still]
  have same : classifyCommand c emptyBaseView false (w.movedTo st).index (w.movedTo st).txindex cmd =
      classifyCommand c emptyBaseView false st.index st.txindex cmd := rfl
  rw [same, planCommand]
  cases classifyCommand c emptyBaseView false st.index st.txindex cmd with
  | error e => rfl
  | ok verdict =>
    cases verdict with
    | answer status walSeq =>
      show Except.ok _ = Except.ok _
      simp only [PlanState.lastResult, List.getLast?_concat]
      rfl
    | write op digest =>
      simp only [ok_bind]
      cases valuePayload cmd.value with
      | error e => rfl
      | ok payload =>
        simp only [ok_bind]
        have slot : encodeFrame c (w.movedTo st).key (w.movedTo st).scopeId (w.movedTo st).segmentId
            op (w.movedTo st).nextSeq cmd.operationId cmd.factId cmd.factVersion payload =
            encodeFrame c w.key w.scopeId w.segmentId op st.seq cmd.operationId cmd.factId
              cmd.factVersion payload := rfl
        rw [slot]
        cases encodeFrame c w.key w.scopeId w.segmentId op st.seq cmd.operationId cmd.factId
            cmd.factVersion payload with
        | error e => rfl
        | ok frame =>
          show Except.ok _ = Except.ok _
          simp only [PlanState.lastResult, List.getLast?_concat]
          rfl

theorem appendEach_eq_planCommands (unsealed : w.isSealed = false) (st : PlanState)
    (cmds : List CommitCommand) :
    (w.movedTo st).appendEach c (cmds.map CommitCommand.call) =
      (planCommands c w.key w.scopeId w.segmentId emptyBaseView false cmds st).map fun st' =>
        (w.movedTo st', (st'.receipts.drop st.receipts.length).map PlannedReceipt.result) := by
  induction cmds generalizing st with
  | nil =>
    show Except.ok _ = Except.ok _
    simp only [List.drop_length, List.map_nil]
  | cons cmd cmds ih =>
    rw [List.map_cons, WalWriter.appendEach, append_eq_planCommand unsealed, planCommands]
    cases turn : planCommand c w.key w.scopeId w.segmentId emptyBaseView false st cmd with
    | error e => rfl
    | ok st₁ =>
      obtain ⟨receipt, added⟩ : ∃ receipt, st₁.receipts = st.receipts ++ [receipt] := by
        rcases planCommand_cases turn with ⟨status, walSeq, -, rfl⟩ | ⟨op, digest, frame, -, -, rfl⟩
        · exact ⟨_, rfl⟩
        · exact ⟨_, rfl⟩
      have last : st₁.lastResult = receipt.result := by
        rw [PlanState.lastResult, added, List.getLast?_concat]
        rfl
      show (do
        let (end', results) ← (w.movedTo st₁).appendEach c (cmds.map CommitCommand.call)
        return (end', st₁.lastResult :: results)) =
        (planCommands c w.key w.scopeId w.segmentId emptyBaseView false cmds st₁).map fun st' =>
          (w.movedTo st', (st'.receipts.drop st.receipts.length).map PlannedReceipt.result)
      rw [ih st₁, last]
      cases run : planCommands c w.key w.scopeId w.segmentId emptyBaseView false cmds st₁ with
      | error e => rfl
      | ok st' =>
        obtain ⟨given, receipts, -, -⟩ := planCommands_planned run
        have later : st'.receipts.drop st₁.receipts.length = given := by
          rw [receipts, List.drop_left']
          rfl
        have all : st'.receipts.drop st.receipts.length = receipt :: given := by
          rw [receipts, added, List.append_assoc, List.drop_left']
          · rfl
          · rfl
        show Except.ok _ = Except.ok _
        simp only [later, all, List.map_cons]

/-- The writer after a chain of batches over its snapshot: their frames at the end of its file,
their indexes and their sequence. -/
def WalWriter.commits (w : WalWriter) (out : Committed) : WalWriter :=
  { w with
    index := out.snapshot.index, txindex := out.snapshot.txindex
    nextSeq := out.snapshot.walHead.durableThroughSeq + 1, file := w.file ++ out.frames.flatten }

theorem appendEach_eq_prepareBatches (unsealed : w.isSealed = false)
    (batches : List (List CommitCommand)) :
    w.appendEach c (batches.flatten.map CommitCommand.call) =
      (prepareBatches c w.key w.scopeId w.segmentId emptyBaseView false batches (w.snapshot c)
        ⟨w.file⟩).map fun out => (w.commits out, out.receipts.map PlannedReceipt.result) := by
  cases batches with
  | nil =>
    show Except.ok _ = Except.ok _
    simp only [WalWriter.commits, WalWriter.snapshot, List.flatten_nil, List.append_nil,
      sub_add_cancel, List.map_nil]
  | cons batch batches =>
    have here : w.movedTo (.start (w.snapshot c) ⟨w.file⟩) = w := by
      simp only [WalWriter.movedTo, PlanState.start, WalWriter.snapshot, sub_add_cancel]
    have row := appendEach_eq_planCommands (c := c) unsealed (.start (w.snapshot c) ⟨w.file⟩)
      (batch ++ batches.flatten)
    rw [here] at row
    rw [prepareBatches_eq_planCommands, List.flatten_cons, row]
    cases run : planCommands c w.key w.scopeId w.segmentId emptyBaseView false
        (batch ++ batches.flatten) (.start (w.snapshot c) ⟨w.file⟩) with
    | error e => rfl
    | ok st =>
      obtain ⟨bytes, -, -, frames, -, fed, -, -⟩ := planCommands_frames run
      simp only [PlanState.start, List.nil_append] at frames fed
      show Except.ok _ = Except.ok _
      simp only [WalWriter.commits, WalWriter.movedTo, PlanState.committed, PlanState.plan,
        PlanState.start, List.length_nil, List.drop_zero, sub_add_cancel, frames, fed]

/-- However a sequence of commands is cut into batches, the chain of `prepareBatch` over them is
the one with a batch for each command, its exceptions included; and over an empty base it gives
the statuses, the sequences, the indexes and the bytes that the single writer appends. -/
theorem prepareBatches_transparent (c : Crypto) {batches : List (List CommitCommand)}
    (cut : batches.flatten = [] → batches = []) :
    (∀ (key : Bytes) (scopeId segmentId : Int) (base : BaseView) (u8Domain : Bool)
      (snapshot : L0Snapshot) (hasher : Hasher),
      prepareBatches c key scopeId segmentId base u8Domain batches snapshot hasher =
        prepareBatches c key scopeId segmentId base u8Domain
          (batches.flatten.map fun cmd => [cmd]) snapshot hasher) ∧
    ∀ w : WalWriter, w.isSealed = false →
      w.appendEach c (batches.flatten.map CommitCommand.call) =
        (prepareBatches c w.key w.scopeId w.segmentId emptyBaseView false batches (w.snapshot c)
          ⟨w.file⟩).map fun out => (w.commits out, out.receipts.map PlannedReceipt.result) := by
  constructor
  · intro key scopeId segmentId base u8Domain snapshot hasher
    by_cases none : batches.flatten = []
    · rw [none, cut none]
      rfl
    · apply prepareBatches_congr
      · rw [← List.flatMap_def, List.flatMap_singleton']
      · rintro rfl
        exact none rfl
      · intro empty
        exact none (List.map_eq_nil_iff.mp empty)
  · intro w unsealed
    exact appendEach_eq_prepareBatches unsealed batches

/-- A put, its retry and a conflict, as two batches and in a row. -/
theorem prepareBatches_transparent_retry :
    prepareBatches stdCrypto (zeros 32) 7 1 emptyBaseView true
        [[firstPut, firstPut], [{ firstPut with value := some 8 }]] genesisSnapshot ⟨[]⟩ =
      prepareBatches stdCrypto (zeros 32) 7 1 emptyBaseView true
        [[firstPut], [firstPut], [{ firstPut with value := some 8 }]] genesisSnapshot ⟨[]⟩ := by
  have transparent := @prepareBatches_transparent stdCrypto
    [[firstPut, firstPut], [{ firstPut with value := some 8 }]] (fun none => by cases none)
  exact transparent.1 (zeros 32) 7 1 emptyBaseView true genesisSnapshot ⟨[]⟩

end

end ProofRay.Engine
