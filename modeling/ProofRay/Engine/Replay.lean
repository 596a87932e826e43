/- What the reducer accepts: a chain of segments whose frames are numbered without
   gaps and replay one after the other over the base. -/

import ProofRay.Engine.Reducer

namespace ProofRay.Engine

open Lib.Guard

def replayFrames (c : Crypto) (base : BaseView) : Builders → List Frame → Option Builders
  | b, [] => some b
  | b, f :: fs =>
    match ReducerState.applyFrame c base b f with
    | .ok (.ok b') => replayFrames c base b' fs
    | _ => none

theorem replayFrames_append (c : Crypto) (base : BaseView) (b : Builders) (fs gs : List Frame) :
    replayFrames c base b (fs ++ gs) =
      (replayFrames c base b fs).bind fun b' => replayFrames c base b' gs := by
  induction fs generalizing b with
  | nil => rfl
  | cons f fs ih =>
    simp only [List.cons_append, replayFrames]
    split
    · exact ih _
    · rfl

/-- Frames numbered `next`, `next + 1`, … -/
def Numbered : Int → List Frame → Prop
  | _, [] => True
  | next, f :: fs => f.seq = next ∧ Numbered (next + 1) fs

theorem numbered_append (next : Int) (fs gs : List Frame) :
    Numbered next (fs ++ gs) ↔ Numbered next fs ∧ Numbered (next + fs.length) gs := by
  induction fs generalizing next with
  | nil => simp [Numbered]
  | cons f fs ih =>
    have shift : next + 1 + (fs.length : Int) = next + ((f :: fs).length : Int) := by
      simp only [List.length_cons, Nat.cast_add, Nat.cast_one]
      omega
    simp only [List.cons_append, Numbered, ih, shift, and_assoc]

theorem numbered_le_iff {next bound : Int} {fs : List Frame} (numbered : Numbered next fs) :
    (∀ f ∈ fs, f.seq ≤ bound) ↔ fs = [] ∨ next + fs.length ≤ bound + 1 := by
  induction fs generalizing next with
  | nil => simp
  | cons f fs ih =>
    obtain ⟨first, rest⟩ := numbered
    simp only [List.mem_cons, forall_eq_or_imp, ih rest, first, List.length_cons, Nat.cast_add,
      Nat.cast_one, reduceCtorEq, false_or]
    cases fs with
    | nil =>
      simp only [true_or, and_true, List.length_nil, Nat.cast_zero]
      omega
    | cons g gs =>
      simp only [reduceCtorEq, false_or, List.length_cons, Nat.cast_add, Nat.cast_one]
      omega

namespace ReducerState

/-- What a reducer that has refused nothing remembers. -/
structure Progress where
  builders : Builders
  next : Int
  segCount : Nat
  prevSegmentId : Int
  totalFrames : Nat
  totalBytes : Nat

def live (base : BaseView) (target : Int) (limits : ReducerLimits) (p : Progress) :
    ReducerState where
  base := base
  builders := some p.builders
  targetSeq := target
  expectedNext := p.next
  applied := p.totalFrames
  lastApplied := p.next - 1
  limits := limits
  segCount := p.segCount
  prevSegmentId := p.prevSegmentId
  totalFrames := p.totalFrames
  totalBytes := p.totalBytes
  terminal := false
  classification := .ok
  reason := ""
  finished := false
  legacy := false

def Progress.start (initialSeq : Int) : Progress :=
  ⟨(WalIndex.init, TxIdIndex.init), initialSeq + 1, 0, -1, 0, 0⟩

theorem start_eq_live (base : BaseView) (initialSeq target : Int) (limits : ReducerLimits) :
    start base initialSeq target limits = live base target limits (.start initialSeq) := by
  simp only [start, live, Progress.start, Int.add_sub_cancel]

private def midway (base : BaseView) (target : Int) (limits : ReducerLimits) (p : Progress)
    (b : Builders) (count : Nat) : ReducerState :=
  { live base target limits p with
    builders := some b, expectedNext := p.next + count, applied := p.totalFrames + count,
    lastApplied := p.next + count - 1 }

variable {base : BaseView} {c : Crypto} {limits : ReducerLimits} {target : Int} {p : Progress}
  {segment : ValidatedWalSegment} {d : WalSegmentDescriptor} {s' : ReducerState}
  {step : ReducerStepResult} {b : Builders}
  {segments : List (ValidatedWalSegment × WalSegmentDescriptor)} {fs : List Frame} {count : Nat}

variable {classification : ReduceClass} {reason : String} {f : Frame}

private theorem applyOne_midway {b b' : Builders} (applied : applyFrame c base b f = .ok (.ok b'))
    (seq : f.seq = p.next + count) :
    applyOne c (midway base target limits p b count) f =
      .ok ({ midway base target limits p b' (count + 1) with
              expectedNext := p.next + count }, none) := by
  have last : p.next + ((count + 1 : Nat) : Int) - 1 = p.next + count := by
    push_cast
    omega
  simp only [applyOne, midway, live, applied, seq, last, ok_bind]
  rfl

private theorem feedFrames_of_replay (limits : ReducerLimits) {b b' : Builders}
    (numbered : Numbered (p.next + count) fs) (within : ∀ f ∈ fs, f.seq ≤ target)
    (replay : replayFrames c base b fs = some b') :
    feedFrames c fs (midway base target limits p b count) =
      .ok (midway base target limits p b' (count + fs.length), none) := by
  induction fs generalizing b count with
  | nil =>
    cases replay
    rfl
  | cons f fs ih =>
    obtain ⟨seq, rest⟩ := numbered
    simp only [replayFrames] at replay
    split at replay
    · rename_i b₁ applied
      have small : ¬ f.seq > target := not_lt.mpr (within f (by simp))
      have shift : p.next + (count : Int) + 1 = p.next + ((count + 1 : Nat) : Int) := by
        push_cast
        omega
      rw [shift] at rest
      have tail := ih rest (fun g member => within g (by simp [member])) replay
      have size : count + (f :: fs).length = count + 1 + fs.length := by
        simp only [List.length_cons]
        omega
      have next : ({ midway base target limits p b₁ (count + 1) with
          expectedNext := p.next + count + 1 } : ReducerState) =
          midway base target limits p b₁ (count + 1) := by
        simp only [midway, shift]
      have expected : (midway base target limits p b count).expectedNext = p.next + count := rfl
      have bound : (midway base target limits p b count).targetSeq = target := rfl
      rw [feedFrames, expected, bound, if_neg (not_not.mpr seq), if_neg small,
        applyOne_midway applied seq, ok_bind, size]
      simp only [next, tail]
    · cases replay

private theorem replay_of_feedFrames
    (h : feedFrames c fs (midway base target limits p b count) = .ok (s', none)) :
    Numbered (p.next + count) fs ∧ (∀ f ∈ fs, f.seq ≤ target) ∧
      ∃ b', replayFrames c base b fs = some b' := by
  induction fs generalizing b count with
  | nil => exact ⟨trivial, by simp, b, rfl⟩
  | cons f fs ih =>
    have expected : (midway base target limits p b count).expectedNext = p.next + count := rfl
    have bound : (midway base target limits p b count).targetSeq = target := rfl
    rw [feedFrames, expected, bound] at h
    split at h
    · cases h
    · rename_i seq
      have seq := not_not.mp seq
      split at h
      · cases h
      · rename_i small
        cases applied : applyFrame c base b f with
        | error e =>
          simp only [applyOne, midway, live, applied, error_bind] at h
          cases h
        | ok r =>
          cases r with
          | error e =>
            simp only [applyOne, midway, live, applied, ok_bind] at h
            cases h
          | ok b₁ =>
            have shift : p.next + (count : Int) + 1 = p.next + ((count + 1 : Nat) : Int) := by
              push_cast
              omega
            have next : ({ midway base target limits p b₁ (count + 1) with
                expectedNext := p.next + count + 1 } : ReducerState) =
                midway base target limits p b₁ (count + 1) := by
              simp only [midway, shift]
            rw [applyOne_midway applied seq, ok_bind] at h
            simp only [next] at h
            obtain ⟨numbered, within, b', replay⟩ := ih h
            refine ⟨⟨seq, ?_⟩, ?_, b', ?_⟩
            · rwa [shift]
            · intro g member
              rcases List.mem_cons.mp member with rfl | member
              · exact not_lt.mp small
              · exact within g member
            · simp only [replayFrames, applied, replay]

/-- A segment the machine takes next, and the indexes after it. -/
structure Accepts (c : Crypto) (base : BaseView) (target : Int) (limits : ReducerLimits)
    (p : Progress) (segment : ValidatedWalSegment) (d : WalSegmentDescriptor) (b : Builders) :
    Prop where
  stamped : segment.stamped
  ordinal : d.ordinal = p.segCount
  identity : p.prevSegmentId < d.segmentId
  first : d.firstSeq = p.next
  count : (segment.frames.length : Int) = d.recordCount
  segments : (p.segCount : Int) + 1 ≤ limits.maxSegments
  frames : (segment.frames.length : Int) ≤ limits.maxFramesPerSegment
  bytes : (segment.byteLength : Int) ≤ limits.maxSegmentBytes
  totalFrames : (p.totalFrames : Int) + segment.frames.length ≤ limits.maxTotalFrames
  totalBytes : (p.totalBytes : Int) + segment.byteLength ≤ limits.maxTotalWalBytes
  numbered : Numbered p.next segment.frames
  within : ∀ f ∈ segment.frames, f.seq ≤ target
  replay : replayFrames c base p.builders segment.frames = some b

def Progress.after (p : Progress) (segment : ValidatedWalSegment) (d : WalSegmentDescriptor)
    (b : Builders) : Progress :=
  ⟨b, p.next + segment.frames.length, p.segCount + 1, d.segmentId,
    p.totalFrames + segment.frames.length, p.totalBytes + segment.byteLength⟩

theorem segmentFault_live_eq_none (base : BaseView) (target : Int) :
    (live base target limits p).segmentFault segment d = none ↔
      segment.stamped ∧ d.ordinal = p.segCount ∧ p.prevSegmentId < d.segmentId ∧
      d.firstSeq = p.next ∧ (segment.frames.length : Int) = d.recordCount ∧
      (p.segCount : Int) + 1 ≤ limits.maxSegments ∧
      (segment.frames.length : Int) ≤ limits.maxFramesPerSegment ∧
      (segment.byteLength : Int) ≤ limits.maxSegmentBytes ∧
      (p.totalFrames : Int) + segment.frames.length ≤ limits.maxTotalFrames ∧
      (p.totalBytes : Int) + segment.byteLength ≤ limits.maxTotalWalBytes := by
  simp only [segmentFault, live, ite_some_eq_none, not_not, ne_eq, not_le, not_lt, gt_iff_lt,
    and_true]

private theorem live_eq_midway (base : BaseView) (target : Int) (limits : ReducerLimits)
    (p : Progress) : live base target limits p = midway base target limits p p.builders 0 := by
  simp only [midway, live, Nat.cast_zero, Int.add_zero, Nat.add_zero]

private theorem closed_eq_live {d : WalSegmentDescriptor} :
    ({ midway base target limits p b segment.frames.length with
        segCount := p.segCount + 1, prevSegmentId := d.segmentId,
        totalFrames := p.totalFrames + segment.frames.length,
        totalBytes := p.totalBytes + segment.byteLength } : ReducerState) =
      live base target limits (p.after segment d b) := by
  simp only [midway, live, Progress.after]

theorem feedSegment_of_accepts (h : Accepts c base target limits p segment d b) :
    (live base target limits p).feedSegment c segment d =
      .ok (live base target limits (p.after segment d b), ⟨true, .ok, "ok"⟩) := by
  have fault := (segmentFault_live_eq_none base target).mpr
    ⟨h.stamped, h.ordinal, h.identity, h.first, h.count, h.segments, h.frames, h.bytes,
      h.totalFrames, h.totalBytes⟩
  have numbered : Numbered (p.next + ((0 : Nat) : Int)) segment.frames := by
    simpa using h.numbered
  have loop := feedFrames_of_replay limits numbered h.within h.replay
  rw [← live_eq_midway, Nat.zero_add] at loop
  have open' : (live base target limits p).terminal = false := rfl
  have unfinished : (live base target limits p).finished = false := rfl
  simp only [feedSegment, open', unfinished, fault, loop, ok_bind, if_false, Bool.false_eq_true]
  rw [← closed_eq_live (d := d)]
  rfl

theorem accepts_of_feedSegment
    (h : (live base target limits p).feedSegment c segment d = .ok (s', step))
    (accepted : step.ok = true) :
    ∃ b, Accepts c base target limits p segment d b ∧
      s' = live base target limits (p.after segment d b) := by
  have kept := h
  have open' : (live base target limits p).terminal = false := rfl
  have unfinished : (live base target limits p).finished = false := rfl
  simp only [feedSegment, open', unfinished, if_false, Bool.false_eq_true] at h
  split at h
  · cases h
    cases accepted
  · rename_i fault
    rw [live_eq_midway] at h
    cases loop : feedFrames c segment.frames (midway base target limits p p.builders 0) with
    | error e =>
      rw [loop, error_bind] at h
      cases h
    | ok r =>
      obtain ⟨s₁, failure⟩ := r
      rw [loop, ok_bind] at h
      cases failure with
      | some e =>
        cases h
        cases accepted
      | none =>
        obtain ⟨numbered, within, b, replay⟩ := replay_of_feedFrames loop
        obtain ⟨h1, h2, h3, h4, h5, h6, h7, h8, h9, h10⟩ := (segmentFault_live_eq_none base target).mp fault
        have numbered' : Numbered p.next segment.frames := by simpa using numbered
        have accepts : Accepts c base target limits p segment d b :=
          ⟨h1, h2, h3, h4, h5, h6, h7, h8, h9, h10, numbered', within, replay⟩
        refine ⟨b, accepts, ?_⟩
        rw [feedSegment_of_accepts accepts] at kept
        cases kept
        rfl

def feedSegments (c : Crypto) : List (ValidatedWalSegment × WalSegmentDescriptor) →
    ReducerState → Except PyError (ReducerState × ReducerStepResult)
  | [], s => .ok (s, ⟨true, .ok, "ok"⟩)
  | (segment, d) :: rest, s => do
    let (s', step) ← s.feedSegment c segment d
    if step.ok then feedSegments c rest s' else return (s', step)

theorem applyFrame_error (h : applyFrame c base b f = .ok (.error (classification, reason))) :
    classification ≠ .ok := by
  simp only [applyFrame, bind_eq_ok, pure_eq_ok, applyDigested] at h
  obtain ⟨digest, -, h⟩ := h
  repeat' split at h
  all_goals cases h
  all_goals simp

theorem feedFrames_error {s s' : ReducerState}
    (h : feedFrames c fs s = .ok (s', some (classification, reason))) : classification ≠ .ok := by
  induction fs generalizing s with
  | nil => cases h
  | cons f fs ih =>
    rw [feedFrames] at h
    split at h
    · cases h
      simp
    · split at h
      · cases h
        simp
      · simp only [bind_eq_ok] at h
        obtain ⟨⟨s₁, failure⟩, step, h⟩ := h
        cases failure with
        | none => exact ih h
        | some e =>
          simp only [applyOne] at step
          split at step
          · cases step
          · simp only [bind_eq_ok] at step
            obtain ⟨r, applied, step⟩ := step
            cases r with
            | ok b => cases step
            | error e' =>
              cases step
              cases h
              exact applyFrame_error applied

theorem segmentFault_ne_ok (s : ReducerState) (segment : ValidatedWalSegment)
    (d : WalSegmentDescriptor) : ∀ e ∈ s.segmentFault segment d, e.1 ≠ .ok := by
  unfold segmentFault
  repeat refine forall_mem_ite_some (by decide) ?_
  simp

theorem finish_of_refused (h : (live base target limits p).feedSegment c segment d = .ok (s', step))
    (refused : step.ok = false) : s'.finish.2.classification ≠ .ok := by
  have open' : (live base target limits p).terminal = false := rfl
  have unfinished : (live base target limits p).finished = false := rfl
  simp only [feedSegment, open', unfinished, if_false, Bool.false_eq_true] at h
  split at h
  · rename_i fault
    cases h
    exact segmentFault_ne_ok _ _ _ _ fault
  · simp only [bind_eq_ok] at h
    obtain ⟨⟨s₁, failure⟩, loop, h⟩ := h
    cases failure with
    | none =>
      cases h
      cases refused
    | some e =>
      cases h
      exact feedFrames_error loop

/-- A chain of accepted segments. -/
inductive AcceptsAll (c : Crypto) (base : BaseView) (target : Int) (limits : ReducerLimits) :
    Progress → List (ValidatedWalSegment × WalSegmentDescriptor) → Progress → Prop where
  | nil (p : Progress) : AcceptsAll c base target limits p [] p
  | cons {p q : Progress} {segment : ValidatedWalSegment} {d : WalSegmentDescriptor}
      {b : Builders} {rest : List (ValidatedWalSegment × WalSegmentDescriptor)}
      (head : Accepts c base target limits p segment d b)
      (tail : AcceptsAll c base target limits (p.after segment d b) rest q) :
      AcceptsAll c base target limits p ((segment, d) :: rest) q

theorem feedSegments_of_acceptsAll {p q : Progress}
    (h : AcceptsAll c base target limits p segments q) :
    feedSegments c segments (live base target limits p) =
      .ok (live base target limits q, ⟨true, .ok, "ok"⟩) := by
  induction h with
  | nil p => rfl
  | cons head tail ih =>
    simp only [feedSegments, feedSegment_of_accepts head, ok_bind, if_true, ih]

theorem acceptsAll_of_feedSegments
    (h : feedSegments c segments (live base target limits p) = .ok (s', step))
    (accepted : step.ok = true) :
    ∃ q, AcceptsAll c base target limits p segments q ∧ s' = live base target limits q := by
  induction segments generalizing p with
  | nil =>
    cases h
    exact ⟨p, .nil p, rfl⟩
  | cons head rest ih =>
    obtain ⟨segment, d⟩ := head
    simp only [feedSegments, bind_eq_ok] at h
    obtain ⟨⟨s₁, step₁⟩, fed, h⟩ := h
    split at h
    · rename_i ok
      obtain ⟨b, accepts, rfl⟩ := accepts_of_feedSegment fed ok
      obtain ⟨q, all, final⟩ := ih h
      exact ⟨q, .cons accepts all, final⟩
    · rename_i refused
      cases h
      exact absurd accepted refused

/-- The result of a machine that has refused nothing: it is final exactly when the
declared coverage is reached. -/
theorem finish_live (base : BaseView) (target : Int) (limits : ReducerLimits) (p : Progress) :
    (live base target limits p).finish.2 =
      if p.next = target + 1 then
        ⟨.ok, p.builders.1, p.builders.2, p.totalFrames, p.next - 1⟩
      else emptyReplay .coverage := by
  by_cases covered : p.next = target + 1
  · simp [finish, live, covered]
  · simp [finish, live, covered]

private theorem finish_of_feedSegments_refused
    (h : feedSegments c segments (live base target limits p) = .ok (s', step))
    (refused : step.ok = false) : s'.finish.2.classification ≠ .ok := by
  induction segments generalizing p with
  | nil =>
    cases h
    cases refused
  | cons head rest ih =>
    obtain ⟨segment, d⟩ := head
    simp only [feedSegments, bind_eq_ok] at h
    obtain ⟨⟨s₁, step₁⟩, fed, h⟩ := h
    split at h
    · rename_i ok
      obtain ⟨b, -, rfl⟩ := accepts_of_feedSegment fed ok
      exact ih h
    · cases h
      exact finish_of_refused fed refused

end ReducerState

open ReducerState

abbrev SegmentFeed := ValidatedWalSegment × WalSegmentDescriptor

def feedFrameList (segments : List SegmentFeed) : List Frame :=
  segments.flatMap fun s => s.1.frames

def feedByteCount (segments : List SegmentFeed) : Nat :=
  (segments.map fun s => s.1.byteLength).sum

def Contiguous : Nat → Int → Int → List SegmentFeed → Prop
  | _, _, _, [] => True
  | ordinal, prevId, first, (segment, d) :: rest =>
    segment.stamped ∧ d.ordinal = ordinal ∧ prevId < d.segmentId ∧ d.firstSeq = first ∧
      (segment.frames.length : Int) = d.recordCount ∧
      Contiguous (ordinal + 1) d.segmentId (first + segment.frames.length) rest

/-- The budgets leave room for the whole chain. -/
structure ReducerLimits.Admits (limits : ReducerLimits) (segments : List SegmentFeed) : Prop where
  segmentCount : (segments.length : Int) ≤ limits.maxSegments
  frames : ∀ s ∈ segments, (s.1.frames.length : Int) ≤ limits.maxFramesPerSegment
  bytes : ∀ s ∈ segments, (s.1.byteLength : Int) ≤ limits.maxSegmentBytes
  totalFrames : ((feedFrameList segments).length : Int) ≤ limits.maxTotalFrames
  totalBytes : (feedByteCount segments : Int) ≤ limits.maxTotalWalBytes

variable {segments : List SegmentFeed} {limits : ReducerLimits} {base : BaseView} {c : Crypto}
  {target : Int}

theorem acceptsAll_of_replay {p : Progress} {b : Builders}
    (contiguous : Contiguous p.segCount p.prevSegmentId p.next segments)
    (segmentCount : (p.segCount : Int) + segments.length ≤ limits.maxSegments)
    (frames : ∀ s ∈ segments, (s.1.frames.length : Int) ≤ limits.maxFramesPerSegment)
    (bytes : ∀ s ∈ segments, (s.1.byteLength : Int) ≤ limits.maxSegmentBytes)
    (totalFrames : (p.totalFrames : Int) + (feedFrameList segments).length ≤ limits.maxTotalFrames)
    (totalBytes : (p.totalBytes : Int) + feedByteCount segments ≤ limits.maxTotalWalBytes)
    (numbered : Numbered p.next (feedFrameList segments))
    (within : ∀ f ∈ feedFrameList segments, f.seq ≤ target)
    (replay : replayFrames c base p.builders (feedFrameList segments) = some b) :
    ∃ q, AcceptsAll c base target limits p segments q ∧ q.builders = b ∧
      q.next = p.next + (feedFrameList segments).length := by
  induction segments generalizing p with
  | nil =>
    cases replay
    exact ⟨p, .nil p, rfl, by simp [feedFrameList]⟩
  | cons head rest ih =>
    obtain ⟨segment, d⟩ := head
    obtain ⟨stamped, ordinal, identity, first, count, contiguous⟩ := contiguous
    have flat : feedFrameList ((segment, d) :: rest) = segment.frames ++ feedFrameList rest := rfl
    have size : feedByteCount ((segment, d) :: rest) =
        segment.byteLength + feedByteCount rest := by simp [feedByteCount]
    rw [flat] at numbered within replay totalFrames ⊢
    rw [size] at totalBytes
    rw [List.length_append] at totalFrames ⊢
    rw [List.length_cons] at segmentCount
    push_cast at totalFrames totalBytes segmentCount
    rw [replayFrames_append] at replay
    cases front : replayFrames c base p.builders segment.frames with
    | none => simp [front] at replay
    | some b₁ =>
      simp only [front, Option.bind_some] at replay
      obtain ⟨numberedHere, numberedRest⟩ := (numbered_append _ _ _).mp numbered
      have accepts : Accepts c base target limits p segment d b₁ :=
        { stamped := stamped
          ordinal := ordinal
          identity := identity
          first := first
          count := count
          segments := by omega
          frames := frames (segment, d) (by simp)
          bytes := bytes (segment, d) (by simp)
          totalFrames := by omega
          totalBytes := by omega
          numbered := numberedHere
          within := fun f member => within f (by simp [member])
          replay := front }
      obtain ⟨q, all, final, next⟩ := ih (p := p.after segment d b₁) contiguous
        (by simp only [Progress.after]; push_cast; omega)
        (fun s member => frames s (by simp [member]))
        (fun s member => bytes s (by simp [member]))
        (by simp only [Progress.after]; push_cast; omega)
        (by simp only [Progress.after]; push_cast; omega)
        numberedRest (fun f member => within f (by simp [member])) replay
      refine ⟨q, .cons accepts all, final, ?_⟩
      simp only [Progress.after] at next
      push_cast
      omega

theorem replay_of_acceptsAll {p q : Progress} (h : AcceptsAll c base target limits p segments q) :
    Contiguous p.segCount p.prevSegmentId p.next segments ∧
      Numbered p.next (feedFrameList segments) ∧
      replayFrames c base p.builders (feedFrameList segments) = some q.builders ∧
      q.next = p.next + (feedFrameList segments).length := by
  induction h with
  | nil p => exact ⟨trivial, trivial, rfl, by simp [feedFrameList]⟩
  | @cons p q segment d b rest head tail ih =>
    obtain ⟨contiguous, numbered, replay, next⟩ := ih
    have flat : feedFrameList ((segment, d) :: rest) = segment.frames ++ feedFrameList rest := rfl
    refine ⟨⟨head.stamped, head.ordinal, head.identity, head.first, head.count, contiguous⟩,
      ?_, ?_, ?_⟩
    · rw [flat, numbered_append]
      exact ⟨head.numbered, numbered⟩
    · rw [flat, replayFrames_append, head.replay]
      exact replay
    · rw [flat, List.length_append, next]
      simp only [Progress.after]
      push_cast
      omega

theorem totals_of_acceptsAll {p q : Progress} (h : AcceptsAll c base target limits p segments q) :
    q.segCount = p.segCount + segments.length ∧
      q.totalFrames = p.totalFrames + (feedFrameList segments).length ∧
      q.totalBytes = p.totalBytes + feedByteCount segments := by
  induction h with
  | nil p => simp [feedFrameList, feedByteCount]
  | @cons p q segment d b rest head tail ih =>
    obtain ⟨count, frames, bytes⟩ := ih
    have flat : feedFrameList ((segment, d) :: rest) = segment.frames ++ feedFrameList rest := rfl
    have size : feedByteCount ((segment, d) :: rest) =
        segment.byteLength + feedByteCount rest := by simp [feedByteCount]
    rw [flat, size, List.length_append, List.length_cons, count, frames, bytes]
    simp only [Progress.after]
    omega

/-- The replay of a chain of segments over a base: `begin`, `feed_segment` for each
segment, `finish`. -/
def replaySegments (c : Crypto) (base : BaseView) (initialSeq target : Int)
    (limits : ReducerLimits) (segments : List SegmentFeed) : Except PyError ReplayResult := do
  let (s, _) ← feedSegments c segments (ReducerState.start base initialSeq target limits)
  return s.finish.2

theorem replaySegments_ok_iff {initialSeq target : Int} {result : ReplayResult} :
    replaySegments c base initialSeq target limits segments = .ok result ∧
        result.classification = .ok ↔
      ∃ p, AcceptsAll c base target limits (.start initialSeq) segments p ∧
        p.next = target + 1 ∧
        result = ⟨.ok, p.builders.1, p.builders.2, p.totalFrames, target⟩ := by
  simp only [replaySegments, start_eq_live, bind_eq_ok, pure_eq_ok]
  constructor
  · rintro ⟨⟨⟨s, step⟩, fed, rfl⟩, accepted⟩
    cases ok : step.ok with
    | false => exact absurd accepted (finish_of_feedSegments_refused fed ok)
    | true =>
      obtain ⟨p, all, rfl⟩ := acceptsAll_of_feedSegments fed ok
      rw [finish_live] at accepted ⊢
      split at accepted
      · rename_i covered
        have last : p.next - 1 = target := by omega
        rw [if_pos covered, last]
        exact ⟨p, all, covered, rfl⟩
      · cases accepted
  · rintro ⟨p, all, covered, rfl⟩
    refine ⟨⟨_, feedSegments_of_acceptsAll all, ?_⟩, rfl⟩
    have last : p.next - 1 = target := by omega
    rw [finish_live, if_pos covered, last]

theorem admits_of_acceptsAll {p q : Progress} (h : AcceptsAll c base target limits p segments q)
    (some : segments ≠ []) : (p.segCount : Int) + segments.length ≤ limits.maxSegments ∧
      (∀ s ∈ segments, (s.1.frames.length : Int) ≤ limits.maxFramesPerSegment ∧
        (s.1.byteLength : Int) ≤ limits.maxSegmentBytes) ∧
      (q.totalFrames : Int) ≤ limits.maxTotalFrames ∧
      (q.totalBytes : Int) ≤ limits.maxTotalWalBytes := by
  induction h with
  | nil p => exact absurd rfl some
  | @cons p q segment d b rest head tail ih =>
    have here := And.intro head.frames head.bytes
    cases rest with
    | nil =>
      cases tail
      exact ⟨head.segments, by simpa using here, head.totalFrames, head.totalBytes⟩
    | cons next later =>
      obtain ⟨count, each, frames, bytes⟩ := ih (List.cons_ne_nil _ _)
      refine ⟨?_, List.forall_mem_cons.mpr ⟨here, each⟩, frames, bytes⟩
      simp only [Progress.after, List.length_cons] at count ⊢
      push_cast at count ⊢
      omega

/-- A chain of segments is replayed with success exactly when it is contiguous, within the budgets
and numbered up to the target, and each frame is accepted behind the ones before it; the answer is
then what the frames make of the empty indexes. -/
theorem replaySegments_eq_ok (c : Crypto) (base : BaseView) (initialSeq target : Int)
    (limits : ReducerLimits) (segments : List SegmentFeed) (result : ReplayResult) :
    replaySegments c base initialSeq target limits segments = .ok result ∧
        result.classification = .ok ↔
      Contiguous 0 (-1) (initialSeq + 1) segments ∧ (segments ≠ [] → limits.Admits segments) ∧
        Numbered (initialSeq + 1) (feedFrameList segments) ∧
        initialSeq + (feedFrameList segments).length = target ∧
        ∃ b, replayFrames c base (WalIndex.init, TxIdIndex.init) (feedFrameList segments) = some b ∧
          result = ⟨.ok, b.1, b.2, (feedFrameList segments).length, target⟩ := by
  rw [replaySegments_ok_iff]
  constructor
  · rintro ⟨p, all, reached, rfl⟩
    obtain ⟨contiguous, numbered, replay, next⟩ := replay_of_acceptsAll all
    obtain ⟨-, frames, bytes⟩ := totals_of_acceptsAll all
    simp only [Progress.start, Nat.zero_add] at contiguous numbered replay next frames bytes
    refine ⟨contiguous, fun some => ?_, numbered, by omega, p.builders, replay, by rw [frames]⟩
    obtain ⟨count, each, total, size⟩ := admits_of_acceptsAll all some
    exact ⟨by simpa [Progress.start] using count, fun s member => (each s member).1,
      fun s member => (each s member).2, frames ▸ total, bytes ▸ size⟩
  · rintro ⟨contiguous, admits, numbered, reached, b, replay, rfl⟩
    cases segments with
    | nil =>
      cases replay
      exact ⟨_, .nil _, by simpa [Progress.start, feedFrameList] using reached, rfl⟩
    | cons head rest =>
      have room := admits (List.cons_ne_nil _ _)
      have within : ∀ f ∈ feedFrameList (head :: rest), f.seq ≤ target :=
        (numbered_le_iff numbered).mpr (.inr (by omega))
      obtain ⟨q, all, rfl, next⟩ := acceptsAll_of_replay (p := .start initialSeq) contiguous
        (by simpa [Progress.start] using room.segmentCount) room.frames room.bytes
        (by simpa [Progress.start] using room.totalFrames)
        (by simpa [Progress.start] using room.totalBytes) numbered within replay
      obtain ⟨-, frames, -⟩ := totals_of_acceptsAll all
      simp only [Progress.start, Nat.zero_add] at next frames
      exact ⟨q, all, by omega, by rw [frames]⟩

end ProofRay.Engine
