/- Replay accepts exactly what ingress acknowledged: the reducer applies every frame the planner
   writes. -/

import ProofRay.Engine.Batch
import ProofRay.Engine.Primitives
import ProofRay.Engine.Replay
import ProofRay.Engine.WalCodec

namespace ProofRay.Engine

open Lib.Guard

section

variable {c : Crypto} {key : Bytes} {scopeId segmentId : Int} {base : BaseView} {u8Domain : Bool}

def CommitCommand.frame (cmd : CommitCommand) (op : Op) (seq : Int) : Frame :=
  ⟨op, seq, cmd.operationId, cmd.factId, cmd.factVersion, cmd.value⟩

variable {cmd : CommitCommand} {op : Op}

theorem payloadMatches_of_canonical {factId factVersion : Int} {value : Option Int}
    {operationId : Bytes} (h : commandIsCanonical op factId factVersion value operationId = true) :
    payloadMatches op value := by
  simp only [commandIsCanonical, decide_eq_true_eq] at h
  obtain ⟨-, -, -, -, put, delete⟩ := h
  cases op with
  | put =>
    have present := put rfl
    cases value with
    | none => simp at present
    | some v => simp [payloadMatches]
  | delete =>
    have absent := delete rfl
    simp [payloadMatches, absent]

variable {commands : List CommitCommand} {cmds : List CommitCommand} {snapshot : L0Snapshot}
  {txindex : TxIdIndex} {st st' : PlanState} {bytes : List Bytes} {index : WalIndex}
  {b b' : Builders} {fs : List Frame} {digest : Bytes} {seq : Int}

theorem classifyCommand_eq_write_iff :
    classifyCommand c base u8Domain index txindex cmd = .ok (.write op digest) ↔
      cmd.op = .known op ∧
      commandIsCanonical op cmd.factId cmd.factVersion cmd.value cmd.operationId = true ∧
      (u8Domain = true → op = .put → isU8Value cmd.value = true) ∧
      contentDigest c op cmd.factId cmd.factVersion cmd.value = .ok digest ∧
      txindex.check cmd.operationId digest = .new ∧
      base.dedupProbe cmd.operationId digest = .new ∧
      ∃ cur, currentVersion index base cmd.factId = some cur ∧
        preflight cur op cmd.factVersion cmd.value = .applied := by
  cases hop : cmd.op with
  | other text => simp [classifyCommand, hop]
  | known op' =>
    simp only [classifyCommand, hop]
    by_cases canonical :
        commandIsCanonical op' cmd.factId cmd.factVersion cmd.value cmd.operationId = true
    · by_cases domain : u8Domain = true ∧ op' = .put ∧ ¬ isU8Value cmd.value = true
      · rw [if_neg (not_not.mpr canonical), if_pos domain]
        constructor
        · intro h
          simp at h
        · rintro ⟨same, -, inDomain, -⟩
          cases same
          exact absurd (inDomain domain.1 domain.2.1) domain.2.2
      · rw [if_neg (not_not.mpr canonical), if_neg domain]
        simp only [bind_eq_ok, pure_eq_ok]
        constructor
        · rintro ⟨digest', hdigest, verdict⟩
          simp only [commandVerdict] at verdict
          split at verdict
          all_goals try cases verdict
          rename_i fresh
          obtain ⟨check, probe⟩ := (classifyDedup_eq_new_iff _ _ _ _ _).mp fresh
          split at verdict
          · cases verdict
          · rename_i cur current
            split at verdict
            all_goals try cases verdict
            rename_i above
            refine ⟨rfl, canonical, ?_, hdigest, check, probe, cur, current, above⟩
            intro domainOn put
            by_contra outside
            exact domain ⟨domainOn, put, outside⟩
        · rintro ⟨same, -, -, hdigest, check, probe, cur, current, above⟩
          cases same
          refine ⟨digest, hdigest, ?_⟩
          have fresh := (classifyDedup_eq_new_iff (txindex.check cmd.operationId digest)
            txindex.getSeq base cmd.operationId digest).mpr ⟨check, probe⟩
          simp only [commandVerdict, fresh, current, above]
    · rw [if_pos canonical]
      constructor
      · intro h
        simp at h
      · rintro ⟨same, canonical', -⟩
        cases same
        exact absurd canonical' canonical

theorem applyFrame_of_write (seq : Int)
    (h : classifyCommand c base u8Domain index txindex cmd = .ok (.write op digest)) :
    ReducerState.applyFrame c base (index, txindex) (cmd.frame op seq) =
      .ok (.ok ((index.apply cmd.factId cmd.factVersion op cmd.value).2,
        txindex.record cmd.operationId digest seq)) := by
  obtain ⟨-, -, -, hdigest, check, probe, cur, current, above⟩ :=
    classifyCommand_eq_write_iff.mp h
  simp only [ReducerState.applyFrame, CommitCommand.frame, hdigest, ok_bind,
    ReducerState.applyDigested, check, probe, current, above, ne_eq, not_true_eq_false, if_false]
  rfl

theorem planCommand_cases (h : planCommand c key scopeId segmentId base u8Domain st cmd = .ok st') :
    (∃ status walSeq,
      classifyCommand c base u8Domain st.index st.txindex cmd = .ok (.answer status walSeq) ∧
      st' = { st with receipts := st.receipts ++ [⟨cmd.enqueueTicket, status, walSeq⟩] }) ∨
    (∃ op digest frame,
      classifyCommand c base u8Domain st.index st.txindex cmd = .ok (.write op digest) ∧
      encodeOf c key scopeId segmentId (cmd.frame op st.seq) = .ok frame ∧
      st' = { index := (st.index.apply cmd.factId cmd.factVersion op cmd.value).2
              txindex := st.txindex.record cmd.operationId digest st.seq
              hasher := st.hasher.update frame
              byteLen := st.byteLen + frame.length
              frames := st.frames ++ [frame]
              receipts := st.receipts ++ [⟨cmd.enqueueTicket, .applied, some st.seq⟩]
              seq := st.seq + 1 }) := by
  simp only [planCommand, bind_eq_ok] at h
  obtain ⟨verdict, classified, h⟩ := h
  cases verdict with
  | answer status walSeq =>
    simp only [pure_eq_ok] at h
    exact .inl ⟨status, walSeq, classified, h.symm⟩
  | write op digest =>
    simp only [bind_eq_ok, pure_eq_ok] at h
    obtain ⟨payload, packed, frame, encoded, final⟩ := h
    refine .inr ⟨op, digest, frame, classified, ?_, final.symm⟩
    simp only [encodeOf, bind_eq_ok]
    exact ⟨payload, packed, encoded⟩

/-- The decoded frames of a planned stretch, with their bytes, their numbering and their
replay. -/
structure PlannedFrames (c : Crypto) (key : Bytes) (scopeId segmentId : Int) (base : BaseView)
    (b : Builders) (seq : Int) (bytes : List Bytes) (fs : List Frame) (b' : Builders) : Prop where
  encoded : List.Forall₂ (fun f frame =>
    payloadMatches f.op f.value ∧ encodeOf c key scopeId segmentId f = .ok frame) fs bytes
  factRange : ∀ f ∈ fs, 1 ≤ f.factVersion ∧ 0 ≤ f.factId ∧ f.factId < maxFactId
  numbered : Numbered seq fs
  replay : replayFrames c base b fs = some b'

theorem PlannedFrames.nil (b : Builders) (seq : Int) :
    PlannedFrames c key scopeId segmentId base b seq [] [] b :=
  ⟨.nil, by simp, trivial, rfl⟩

theorem PlannedFrames.length_eq (h : PlannedFrames c key scopeId segmentId base b seq bytes fs b') :
    fs.length = bytes.length := h.encoded.length_eq

theorem planCommands_frames
    (h : planCommands c key scopeId segmentId base u8Domain cmds st = .ok st') :
    ∃ bytes fs, bytes.length ≤ cmds.length ∧
      st'.frames = st.frames ++ bytes ∧ st'.seq = st.seq + bytes.length ∧
      st'.hasher.fed = st.hasher.fed ++ bytes.flatten ∧
      st'.byteLen = st.byteLen + bytes.flatten.length ∧
      PlannedFrames c key scopeId segmentId base (st.index, st.txindex) st.seq bytes fs
        (st'.index, st'.txindex) := by
  induction cmds generalizing st with
  | nil =>
    cases h
    exact ⟨[], [], le_rfl, by simp, by simp, by simp, by simp, .nil _ _⟩
  | cons cmd cmds ih =>
    simp only [planCommands, bind_eq_ok] at h
    obtain ⟨st₁, step, rest⟩ := h
    obtain ⟨bytes, fs, few, frames, seq, fed, len, planned⟩ := ih rest
    rcases planCommand_cases step with
      ⟨status, walSeq, -, rfl⟩ | ⟨op, digest, frame, classified, encoded, rfl⟩
    · exact ⟨bytes, fs, Nat.le_succ_of_le few, frames, seq, fed, len, planned⟩
    · have canonical := (classifyCommand_eq_write_iff.mp classified).2.1
      have kind := payloadMatches_of_canonical canonical
      simp only [commandIsCanonical, decide_eq_true_eq] at canonical
      refine ⟨frame :: bytes, cmd.frame op st.seq :: fs, Nat.succ_le_succ few, ?_, ?_, ?_, ?_, ?_⟩
      · simp only [frames, List.append_assoc, List.singleton_append]
      · simp only [seq, List.length_cons]
        push_cast
        omega
      · simp only [fed, Hasher.update, List.append_assoc, List.flatten_cons]
      · simp only [len, List.flatten_cons, List.length_append]
        omega
      · refine ⟨.cons ⟨kind, encoded⟩ planned.encoded, ?_, ⟨rfl, planned.numbered⟩, ?_⟩
        · intro f member
          rcases List.mem_cons.mp member with rfl | member
          · exact ⟨canonical.2.1, canonical.2.2.1, canonical.2.2.2.1⟩
          · exact planned.factRange f member
        · simp only [replayFrames, applyFrame_of_write st.seq classified]
          exact planned.replay

/-- The two tests `prepareBatch` makes on the fields of a command before it decides. -/
def CommitCommand.admitted (u8Domain : Bool) (cmd : CommitCommand) : Bool :=
  match cmd.op with
  | .other _ => false
  | .known op =>
    commandIsCanonical op cmd.factId cmd.factVersion cmd.value cmd.operationId &&
      !(u8Domain && decide (op = .put) && !isU8Value cmd.value)

theorem classifyCommand_not_admitted (index : WalIndex) (txindex : TxIdIndex)
    (refused : cmd.admitted u8Domain = false) :
    classifyCommand c base u8Domain index txindex cmd = .ok (.answer .invalidArgument none) := by
  unfold CommitCommand.admitted at refused
  unfold classifyCommand
  cases hop : cmd.op with
  | other text => rfl
  | known op =>
    simp only [hop] at refused
    by_cases canonical :
        commandIsCanonical op cmd.factId cmd.factVersion cmd.value cmd.operationId = true
    · have outside : u8Domain = true ∧ op = .put ∧ ¬ isU8Value cmd.value = true := by
        simpa [canonical, and_assoc] using refused
      simp only [canonical, not_true_eq_false, if_false]
      exact if_pos outside
    · exact if_pos canonical

def CommitCommand.Packable (cmd : CommitCommand) : Prop := cmd.factVersion < 4294967296

theorem planCommand_ok (c : Crypto) (key : Bytes) (base : BaseView) (u8Domain : Bool)
    (st : PlanState) (packable : cmd.admitted u8Domain = true → cmd.Packable)
    (scope : 0 ≤ scopeId ∧ scopeId < 4294967296) (segment : 0 ≤ segmentId ∧ segmentId < 4294967296)
    (seq : 0 ≤ st.seq ∧ st.seq < 18446744073709551616) :
    ∃ st', planCommand c key scopeId segmentId base u8Domain st cmd = .ok st' := by
  by_cases passed : cmd.admitted u8Domain = true
  swap
  · have refused : classifyCommand c base u8Domain st.index st.txindex cmd =
        .ok (.answer .invalidArgument none) :=
      classifyCommand_not_admitted st.index st.txindex (Bool.eq_false_of_not_eq_true passed)
    simp only [planCommand, refused, ok_bind]
    exact ⟨_, rfl⟩
  have packable := packable passed
  have canonicalRange : ∀ op,
      commandIsCanonical op cmd.factId cmd.factVersion cmd.value cmd.operationId = true →
      (0 ≤ cmd.factId ∧ cmd.factId < maxFactId) ∧
      (0 ≤ cmd.factVersion ∧ cmd.factVersion < 4294967296) ∧
      cmd.operationId.length = 16 ∧ ∀ v ∈ cmd.value, 0 ≤ v ∧ v < 4294967296 := by
    intro op canonical
    unfold CommitCommand.Packable at packable
    simp only [commandIsCanonical, decide_eq_true_eq] at canonical
    obtain ⟨id, version, low, high, put, delete⟩ := canonical
    refine ⟨⟨low, high⟩, ⟨by omega, packable⟩, id, ?_⟩
    intro v member
    cases op with
    | put =>
      have range := put rfl
      rw [Option.mem_def] at member
      simp only [member, Option.any_some, decide_eq_true_eq] at range
      omega
    | delete =>
      rw [delete rfl] at member
      cases member
  have verdict : ∃ v, classifyCommand c base u8Domain st.index st.txindex cmd = .ok v := by
    unfold classifyCommand
    cases cmd.op with
    | other text => exact ⟨_, rfl⟩
    | known op =>
      by_cases canonical :
          commandIsCanonical op cmd.factId cmd.factVersion cmd.value cmd.operationId = true
      · obtain ⟨fact, version, -, range⟩ := canonicalRange op canonical
        obtain ⟨digest, packed⟩ := contentDigest_ok c op fact version range
        simp only [canonical, not_true_eq_false, if_false, packed, ok_bind]
        split
        · exact ⟨_, rfl⟩
        · exact ⟨_, rfl⟩
      · exact ⟨_, if_pos canonical⟩
  obtain ⟨v, classified⟩ := verdict
  cases v with
  | answer status walSeq =>
    simp only [planCommand, classified, ok_bind]
    exact ⟨_, rfl⟩
  | write op digest =>
    have canonical := (classifyCommand_eq_write_iff.mp classified).2.1
    obtain ⟨fact, version, id, range⟩ := canonicalRange op canonical
    obtain ⟨frame, encoded⟩ := encodeOf_ok c key (cmd.frame op st.seq) scope segment
      seq id fact version range
    simp only [encodeOf, CommitCommand.frame, bind_eq_ok] at encoded
    obtain ⟨payload, packed, encoded⟩ := encoded
    simp only [planCommand, classified, ok_bind, packed, encoded]
    exact ⟨_, rfl⟩

theorem planCommands_ok (c : Crypto) (key : Bytes) (base : BaseView) (u8Domain : Bool)
    (st : PlanState) (packable : ∀ cmd ∈ cmds, cmd.admitted u8Domain = true → cmd.Packable)
    (scope : 0 ≤ scopeId ∧ scopeId < 4294967296) (segment : 0 ≤ segmentId ∧ segmentId < 4294967296)
    (seq : 0 ≤ st.seq) (room : st.seq + cmds.length < 18446744073709551616) :
    ∃ st', planCommands c key scopeId segmentId base u8Domain cmds st = .ok st' := by
  induction cmds generalizing st with
  | nil => exact ⟨st, rfl⟩
  | cons cmd cmds ih =>
    rw [List.length_cons] at room
    push_cast at room
    obtain ⟨st₁, step⟩ := planCommand_ok c key base u8Domain st (packable cmd (by simp)) scope
      segment ⟨seq, by omega⟩
    have next : st.seq ≤ st₁.seq ∧ st₁.seq ≤ st.seq + 1 := by
      rcases planCommand_cases step with ⟨status, walSeq, -, rfl⟩ | ⟨op, digest, frame, -, -, rfl⟩
      · exact ⟨le_rfl, by simp⟩
      · exact ⟨by simp, le_rfl⟩
    obtain ⟨st', rest⟩ := ih st₁ (fun cmd' member => packable cmd' (by simp [member]))
      (by omega) (by omega)
    exact ⟨st', by simp only [planCommands, step, ok_bind, rest]⟩

/-- What a plan is: its frames replay from the snapshot to the candidate. -/
structure PlanSpec (c : Crypto) (key : Bytes) (scopeId segmentId : Int) (base : BaseView)
    (snapshot : L0Snapshot) (hasher : Hasher) (plan : BatchPlan) (fs : List Frame) : Prop where
  planned : PlannedFrames c key scopeId segmentId base (snapshot.index, snapshot.txindex)
    (snapshot.walHead.durableThroughSeq + 1) plan.frames fs
    (plan.candidateSnapshot.index, plan.candidateSnapshot.txindex)
  fed : plan.candidateHasher.fed = hasher.fed ++ plan.frames.flatten
  head : plan.candidateHead =
    ⟨scopeId, segmentId, snapshot.walHead.firstSeq,
      snapshot.walHead.durableThroughSeq + plan.frames.length,
      snapshot.walHead.byteLength + plan.frames.flatten.length,
      plan.candidateHasher.digest c, stateActive⟩
  snapshotHead : plan.candidateSnapshot.walHead = plan.candidateHead
  visible : plan.candidateSnapshot.visibleThroughSeq =
    snapshot.walHead.durableThroughSeq + plan.frames.length
  first : plan.expectedFirstSeq = snapshot.walHead.durableThroughSeq + 1
  byteCount : plan.byteCount = plan.frames.flatten.length

theorem prepareBatch_ok (c : Crypto) (key : Bytes) (base : BaseView) (u8Domain : Bool)
    (hasher : Hasher) (packable : ∀ cmd ∈ commands, cmd.admitted u8Domain = true → cmd.Packable)
    (scope : 0 ≤ scopeId ∧ scopeId < 4294967296) (segment : 0 ≤ segmentId ∧ segmentId < 4294967296)
    (durable : -1 ≤ snapshot.walHead.durableThroughSeq)
    (room : snapshot.walHead.durableThroughSeq + 1 + commands.length < 18446744073709551616) :
    ∃ plan, prepareBatch c snapshot hasher commands key scopeId segmentId base u8Domain =
      .ok plan := by
  obtain ⟨st, run⟩ := planCommands_ok c key base u8Domain (.start snapshot hasher) packable scope
    segment
    (by simp only [PlanState.start]; omega) room
  exact ⟨st.plan c snapshot scopeId segmentId, by simp only [prepareBatch, run, ok_bind]; rfl⟩

theorem prepareBatch_spec {hasher : Hasher} {plan : BatchPlan}
    (h : prepareBatch c snapshot hasher commands key scopeId segmentId base u8Domain = .ok plan) :
    ∃ fs, PlanSpec c key scopeId segmentId base snapshot hasher plan fs ∧
      plan.frames.length ≤ commands.length := by
  simp only [prepareBatch, bind_eq_ok, pure_eq_ok] at h
  obtain ⟨st, run, rfl⟩ := h
  obtain ⟨bytes, fs, few, frames, seq, fed, len, planned⟩ := planCommands_frames run
  simp only [PlanState.start, List.nil_append] at frames seq fed len planned
  have last : st.seq - 1 = snapshot.walHead.durableThroughSeq + bytes.length := by
    rw [seq]
    omega
  refine ⟨fs, ⟨?_, ?_, ?_, rfl, ?_, rfl, ?_⟩, by simpa only [PlanState.plan, frames] using few⟩
  · simpa only [PlanState.plan, frames] using planned
  · simpa only [PlanState.plan, frames] using fed
  · simp only [PlanState.plan, last, len, frames]
  · simp only [PlanState.plan, last, frames]
  · simp only [PlanState.plan, List.length_flatten]

def decodeFrames (frames : List Bytes) : Option (List Frame) := frames.mapM frameTuple

theorem PlannedFrames.decode (h : PlannedFrames c key scopeId segmentId base b seq bytes fs b') :
    decodeFrames bytes = some fs := by
  have encoded := h.encoded
  clear h
  induction encoded with
  | nil => rfl
  | cons head tail ih =>
    have first := frameTuple_encodeOf head.1 head.2
    simp only [decodeFrames] at ih ⊢
    simp only [List.mapM_cons, first, ih]
    rfl

end

/-- The life of a writer over one base: batches planned and adopted one after the other, and
changes of segment that keep the indexes and the sequence. -/
inductive WriterRun (c : Crypto) (base : BaseView) : L0Snapshot → List Bytes → L0Snapshot → Prop where
  | done (s : L0Snapshot) : WriterRun c base s [] s
  | batch {s s' : L0Snapshot} {hasher : Hasher} {commands : List CommitCommand} {key : Bytes}
      {scopeId segmentId : Int} {u8Domain : Bool} {plan : BatchPlan} {frames : List Bytes}
      (planned : prepareBatch c s hasher commands key scopeId segmentId base u8Domain = .ok plan)
      (rest : WriterRun c base plan.candidateSnapshot frames s') :
      WriterRun c base s (plan.frames ++ frames) s'
  | newSegment {s s' : L0Snapshot} {head : WalHead} {frames : List Bytes}
      (same : head.durableThroughSeq = s.walHead.durableThroughSeq)
      (rest : WriterRun c base { s with walHead := head } frames s') :
      WriterRun c base s frames s'

theorem WriterRun.replays {c : Crypto} {base : BaseView} {s s' : L0Snapshot}
    {frames : List Bytes} (run : WriterRun c base s frames s') :
    ∃ fs, decodeFrames frames = some fs ∧ Numbered (s.walHead.durableThroughSeq + 1) fs ∧
      replayFrames c base (s.index, s.txindex) fs = some (s'.index, s'.txindex) ∧
      s'.walHead.durableThroughSeq = s.walHead.durableThroughSeq + fs.length := by
  induction run with
  | done s => exact ⟨[], rfl, trivial, rfl, by simp⟩
  | @batch s s' hasher commands key scopeId segmentId u8Domain plan frames planned rest ih =>
    obtain ⟨front, spec, -⟩ := prepareBatch_spec planned
    obtain ⟨back, decode, numbered, replay, last⟩ := ih
    have count : ((front.length : Nat) : Int) = plan.frames.length := by
      rw [spec.planned.length_eq]
    have durable : plan.candidateSnapshot.walHead.durableThroughSeq =
        s.walHead.durableThroughSeq + front.length := by
      rw [spec.snapshotHead, spec.head, count]
    rw [durable] at numbered last
    refine ⟨front ++ back, ?_, ?_, ?_, ?_⟩
    · have first := spec.planned.decode
      simp only [decodeFrames] at first decode ⊢
      simp only [List.mapM_append, first, decode]
      rfl
    · rw [numbered_append]
      exact ⟨spec.planned.numbered, by rwa [Int.add_right_comm] at numbered⟩
    · rw [replayFrames_append, spec.planned.replay]
      exact replay
    · rw [last, List.length_append]
      push_cast
      omega
  | newSegment same rest ih =>
    obtain ⟨fs, decode, numbered, replay, last⟩ := ih
    simp only [same] at numbered last
    exact ⟨fs, decode, numbered, replay, last⟩

open ReducerState in
/-- Replay accepts what ingress acknowledged.  From any snapshot that replay produced, over
any base, the frames of every later batch decode, and every contiguous split of them into
segments the budgets admit is reduced to the writer's last indexes. -/
theorem replay_accepts_ingress {c : Crypto} {base : BaseView} {initialSeq readSeq : Int}
    {limits₀ : ReducerLimits} (limits : ReducerLimits) {earlier : List SegmentFeed}
    {result₀ : ReplayResult} {snapshot final : L0Snapshot} {frames : List Bytes}
    (replayed : replaySegments c base initialSeq readSeq limits₀ earlier = .ok result₀)
    (accepted : result₀.classification = .ok)
    (index : snapshot.index = result₀.index) (txindex : snapshot.txindex = result₀.txindex)
    (durable : snapshot.walHead.durableThroughSeq = readSeq)
    (run : WriterRun c base snapshot frames final) :
    ∃ fs, decodeFrames frames = some fs ∧
      ∀ later : List SegmentFeed, feedFrameList later = fs →
        Contiguous 0 (-1) (initialSeq + 1) (earlier ++ later) →
        limits.Admits (earlier ++ later) →
        replaySegments c base initialSeq final.walHead.durableThroughSeq limits
            (earlier ++ later) =
          .ok ⟨.ok, final.index, final.txindex, (feedFrameList (earlier ++ later)).length,
            final.walHead.durableThroughSeq⟩ := by
  obtain ⟨fs, decode, numbered, replay, last⟩ := run.replays
  refine ⟨fs, decode, ?_⟩
  rintro later rfl contiguous admits
  obtain ⟨p, all, next, rfl⟩ := replaySegments_ok_iff.mp ⟨replayed, accepted⟩
  obtain ⟨-, numbered₀, replay₀, next₀⟩ := replay_of_acceptsAll all
  have whole : feedFrameList (earlier ++ later) = feedFrameList earlier ++ feedFrameList later :=
    List.flatMap_append
  have builders : (snapshot.index, snapshot.txindex) = p.builders := by rw [index, txindex]
  have start : snapshot.walHead.durableThroughSeq + 1 =
      initialSeq + 1 + (feedFrameList earlier).length := by
    rw [durable, ← next, next₀]
    rfl
  have end' : final.walHead.durableThroughSeq =
      initialSeq + (feedFrameList (earlier ++ later)).length := by
    rw [last, whole, List.length_append]
    push_cast
    omega
  rw [start] at numbered
  have numberedAll : Numbered (initialSeq + 1) (feedFrameList (earlier ++ later)) := by
    rw [whole, numbered_append]
    exact ⟨numbered₀, numbered⟩
  have replayAll : replayFrames c base (WalIndex.init, TxIdIndex.init)
      (feedFrameList (earlier ++ later)) = some (final.index, final.txindex) := by
    rw [whole, replayFrames_append]
    change (replayFrames c base (Progress.start initialSeq).builders _).bind _ = _
    rw [replay₀, Option.bind_some, ← builders]
    exact replay
  have within : ∀ f ∈ feedFrameList (earlier ++ later),
      f.seq ≤ final.walHead.durableThroughSeq := by
    rw [numbered_le_iff numberedAll]
    right
    omega
  obtain ⟨q, allLater, final', nextLater⟩ := acceptsAll_of_replay (p := .start initialSeq)
    contiguous (by simpa [Progress.start] using admits.segmentCount) admits.frames admits.bytes
    (by simpa [Progress.start] using admits.totalFrames)
    (by simpa [Progress.start] using admits.totalBytes) numberedAll within replayAll
  have reached : q.next = final.walHead.durableThroughSeq + 1 := by
    rw [nextLater, end']
    simp only [Progress.start]
    omega
  have counted := (totals_of_acceptsAll allLater).2.1
  have result := (replaySegments_ok_iff.mpr ⟨q, allLater, reached, rfl⟩).1
  rw [result, final', counted]
  simp [Progress.start]

def genesisSnapshot : L0Snapshot :=
  ⟨WalIndex.init, TxIdIndex.init, 0, ⟨7, 1, 1, 0, 67, zeros 32, stateActive⟩⟩

def firstPut : CommitCommand := ⟨zeros 16, .known .put, 42, 1, some 9, 0⟩

def firstSegment (fs : List Frame) : SegmentFeed :=
  (⟨⟨7, 1, 1, 0, zeros 16, walFormatVersion⟩, fs, fs.length, 147, false, true⟩,
    ⟨0, 1, 1, fs.length, stateActive, 147, zeros 32, 0, zeros 32, zeros 16, 0⟩)

private theorem firstPut_planned : ∃ plan, prepareBatch stdCrypto genesisSnapshot ⟨[]⟩ [firstPut]
    (zeros 32) 7 1 emptyBaseView true = .ok plan :=
  prepareBatch_ok stdCrypto (zeros 32) emptyBaseView true ⟨[]⟩
    (by simp [CommitCommand.Packable, firstPut]) (by decide) (by decide) (by decide) (by decide)

theorem replay_accepts_first_put :
    ∃ plan fs, prepareBatch stdCrypto genesisSnapshot ⟨[]⟩ [firstPut] (zeros 32) 7 1 emptyBaseView
        true = .ok plan ∧ decodeFrames plan.frames = some fs ∧
      replaySegments stdCrypto emptyBaseView 0
          plan.candidateSnapshot.walHead.durableThroughSeq unboundedReducerLimits
          [firstSegment fs] =
        .ok ⟨.ok, plan.candidateSnapshot.index, plan.candidateSnapshot.txindex,
          (feedFrameList [firstSegment fs]).length,
          plan.candidateSnapshot.walHead.durableThroughSeq⟩ := by
  obtain ⟨plan, planned⟩ := firstPut_planned
  have run : WriterRun stdCrypto emptyBaseView genesisSnapshot plan.frames
      plan.candidateSnapshot := by
    have whole := WriterRun.batch planned (.done plan.candidateSnapshot)
    rwa [List.append_nil] at whole
  have replayed : replaySegments stdCrypto emptyBaseView 0 0 unboundedReducerLimits [] =
      .ok ⟨.ok, WalIndex.init, TxIdIndex.init, 0, 0⟩ := rfl
  obtain ⟨fs, decode, accepts⟩ := replay_accepts_ingress unboundedReducerLimits replayed rfl
    rfl rfl rfl run
  have frames : feedFrameList [firstSegment fs] = fs := by
    simp [feedFrameList, firstSegment]
  have few : fs.length ≤ 1 := by
    obtain ⟨gs, spec, short⟩ := prepareBatch_spec planned
    have same := spec.planned.decode
    rw [decode] at same
    cases same
    rw [spec.planned.length_eq]
    exact short
  refine ⟨plan, fs, planned, decode, accepts [firstSegment fs] frames ?_ ?_⟩
  · have later : (-1 : Int) < 1 := by decide
    exact ⟨rfl, rfl, later, rfl, rfl, trivial⟩
  · have one : (1 : Int) ≤ 1 <<< 62 := by decide
    have size : (147 : Int) ≤ 1 <<< 62 := by decide
    have small : (fs.length : Int) ≤ 1 <<< 62 := le_trans (Int.ofNat_le.mpr few) one
    refine ⟨one, ?_, ?_, ?_, size⟩
    · rintro s member
      cases List.mem_singleton.mp member
      exact small
    · rintro s member
      cases List.mem_singleton.mp member
      exact size
    · rw [List.nil_append, frames]
      exact small

end ProofRay.Engine
