/- The reducer under any calls: what a machine keeps that is fed segments and flat frames and is
   finished in any order. -/

import ProofRay.Engine.Primitives
import ProofRay.Engine.Replay
import ProofRay.Engine.WalCodec
import ProofRay.Lib.Machine

namespace ProofRay.Engine

open Lib (Machine)
open Lib.Guard

inductive ReducerCall where
  | feedSegment (segment : ValidatedWalSegment) (descriptor : WalSegmentDescriptor)
  | feedLegacyFrames (frames : List Frame) (uptoSeq : Option Int)
  | finish

inductive ReducerAnswer where
  | step (result : ReducerStepResult)
  | replay (result : ReplayResult)
  | raised (e : PyError)

def reducerMachine (c : Crypto) : Machine (Option ReducerState) ReducerCall ReducerAnswer where
  step
    | none, _ => none
    | some s, .feedSegment segment descriptor =>
      match s.feedSegment c segment descriptor with
      | .ok (s', result) => some (some s', .step result)
      | .error e => some (none, .raised e)
    | some s, .feedLegacyFrames frames uptoSeq =>
      match s.feedLegacyFrames c frames uptoSeq with
      | .ok (s', result) => some (some s', .step result)
      | .error e => some (none, .raised e)
    | some s, .finish => some (some s.finish.1, .replay s.finish.2)

/-- The frames of `feed_legacy_frames` before the first that is beyond `upto_seq`. -/
def framesUpto (uptoSeq : Option Int) (frames : List Frame) : List Frame :=
  frames.takeWhile fun f => !uptoSeq.any fun upto => f.seq > upto

def ReducerCall.frames : ReducerCall → List Frame
  | .feedSegment segment _ => segment.frames
  | .feedLegacyFrames frames uptoSeq => framesUpto uptoSeq frames
  | .finish => []

def ReducerCall.isSegment : ReducerCall → Bool
  | .feedSegment _ _ => true
  | _ => false

def fedFrames (calls : List ReducerCall) : List Frame := calls.flatMap ReducerCall.frames

namespace ReducerAnswer

def Succeeded : ReducerAnswer → Prop
  | .step result => result.ok = true
  | .replay result => result.classification = .ok
  | .raised _ => False

def Reports (classification : ReduceClass) (reason : String) : ReducerAnswer → Prop
  | .step result => result = ⟨false, classification, reason⟩
  | .replay result => result = ReducerState.emptyReplay classification
  | .raised _ => False

end ReducerAnswer

/-- The fields of a frame are in the ranges of `content_digest`. -/
def Frame.Digested (c : Crypto) (f : Frame) : Prop :=
  ∃ digest, contentDigest c f.op f.factId f.factVersion f.value = .ok digest

/-- What a call has to meet where it comes: the frames it applies have a digest, flat frames do not
follow a finish, and a machine that took segments and flat frames too is not finished. -/
def Orderly (c : Crypto) : Option ReducerState → ReducerCall → Prop
  | none, _ => True
  | some s, .feedSegment segment descriptor => s.terminal = false → s.finished = false →
    s.segmentFault segment descriptor = none → ∀ f ∈ segment.frames, f.Digested c
  | some s, .feedLegacyFrames frames uptoSeq => s.terminal = false →
    (∀ f ∈ framesUpto uptoSeq frames, f.Digested c) ∧
      (s.finished = true → framesUpto uptoSeq frames = [])
  | some s, .finish => s.terminal = false → s.finished = false → s.legacy = true → s.segCount = 0

variable {c : Crypto}

def Refused (outcome : Except PyError (ReducerState × Option (ReduceClass × String))) : Prop :=
  ∃ s classification reason, outcome = .ok (s, some (classification, reason)) ∧ classification ≠ .ok

def lastSeq (before : Int) (frames : List Frame) : Int :=
  (frames.getLast?.map Frame.seq).getD before

theorem lastSeq_cons (before : Int) (f : Frame) (frames : List Frame) :
    lastSeq before (f :: frames) = lastSeq f.seq frames := by
  cases frames with
  | nil => rfl
  | cons g frames =>
    unfold lastSeq
    rw [List.getLast?_cons_cons, List.getLast?_eq_some_getLast (List.cons_ne_nil g frames)]
    rfl

theorem lastSeq_append (before : Int) (frames frames' : List Frame) :
    lastSeq before (frames ++ frames') = lastSeq (lastSeq before frames) frames' := by
  induction frames generalizing before with
  | nil => rfl
  | cons f frames ih => rw [List.cons_append, lastSeq_cons, lastSeq_cons, ih]

namespace ReducerState

def after (s : ReducerState) (b : Builders) (frames : List Frame) : ReducerState :=
  { s with
    builders := some b
    applied := s.applied + frames.length
    lastApplied := lastSeq s.lastApplied frames }

theorem after_cons (s : ReducerState) (b b' : Builders) (f : Frame) (frames : List Frame) :
    (s.after b [f]).after b' frames = s.after b' (f :: frames) := by
  have count : s.applied + [f].length + frames.length = s.applied + (f :: frames).length := by
    simp only [List.length_cons, List.length_nil]
    omega
  have last : lastSeq (lastSeq s.lastApplied [f]) frames = lastSeq s.lastApplied (f :: frames) := by
    rw [← lastSeq_append, List.singleton_append]
  simp only [after, count, last]

variable {s : ReducerState} {fed : List Frame} {segments : Nat} {answers : List ReducerAnswer}
  {classification : ReduceClass} {calls : List ReducerCall} {frames : List Frame} {reason : String}
  {b : Builders} {uptoSeq : Option Int} {call : ReducerCall}

theorem applyOne_cases (open_ : s.builders = some b) {f : Frame} (digested : f.Digested c) :
    (∃ b', applyFrame c s.base b f = .ok (.ok b') ∧ applyOne c s f = .ok (s.after b' [f], none)) ∨
    (Refused (applyOne c s f)) := by
  obtain ⟨digest, taken⟩ := digested
  have frame : applyFrame c s.base b f = .ok (applyDigested s.base b f digest) := by
    simp only [applyFrame, taken, ok_bind]
    rfl
  cases applied : applyDigested s.base b f digest with
  | ok b' =>
    refine .inl ⟨b', by rw [frame, applied], ?_⟩
    simp only [applyOne, open_, frame, applied, ok_bind]
    rfl
  | error e =>
    refine .inr ⟨s, e.1, e.2, ?_, applyFrame_error (c := c) (f := f) (by rw [frame, applied])⟩
    simp only [applyOne, open_, frame, applied, ok_bind]
    rfl

theorem after_nil (open_ : s.builders = some b) : s.after b [] = s := by
  simp only [after, ← open_, List.length_nil, Nat.add_zero, lastSeq, List.getLast?_nil,
    Option.map_none, Option.getD_none]

theorem feedLegacyLoop_cases (open_ : s.builders = some b)
    (digested : ∀ f ∈ framesUpto uptoSeq frames, f.Digested c) :
    (∃ b', replayFrames c s.base b (framesUpto uptoSeq frames) = some b' ∧
      feedLegacyLoop c uptoSeq frames s =
        .ok (s.after b' (framesUpto uptoSeq frames), none)) ∨
    Refused (feedLegacyLoop c uptoSeq frames s) := by
  induction frames generalizing s b with
  | nil =>
    refine .inl ⟨b, rfl, ?_⟩
    rw [feedLegacyLoop, framesUpto, List.takeWhile_nil, after_nil open_]
  | cons f frames ih =>
    by_cases beyond : (uptoSeq.any fun upto => f.seq > upto) = true
    · have none : framesUpto uptoSeq (f :: frames) = [] := by
        rw [framesUpto, List.takeWhile_cons_of_neg (by simp [beyond])]
      rw [none, feedLegacyLoop, if_pos beyond]
      exact .inl ⟨b, rfl, by rw [after_nil open_]⟩
    · have some_frame : framesUpto uptoSeq (f :: frames) = f :: framesUpto uptoSeq frames := by
        rw [framesUpto, List.takeWhile_cons_of_pos (by simp [beyond]), framesUpto]
      rw [some_frame] at digested ⊢
      obtain ⟨first, rest⟩ := List.forall_mem_cons.mp digested
      rw [feedLegacyLoop, if_neg beyond]
      rcases applyOne_cases open_ first with
        ⟨b₁, applied, stepped⟩ | ⟨s₁, cls, reason, stepped, bad⟩
      · rw [stepped, ok_bind]
        rcases @ih (s.after b₁ [f]) b₁ rfl rest with ⟨b', replayed, looped⟩ | refused
        · refine .inl ⟨b', ?_, ?_⟩
          · rw [replayFrames, applied]
            exact replayed
          · show feedLegacyLoop c uptoSeq frames (s.after b₁ [f]) = _
            rw [looped, after_cons]
        · exact .inr refused
      · rw [stepped, ok_bind]
        exact .inr ⟨s₁, cls, reason, rfl, bad⟩

theorem feedFrames_cases (open_ : s.builders = some b) (digested : ∀ f ∈ frames, f.Digested c) :
    (∃ b', replayFrames c s.base b frames = some b' ∧ Numbered s.expectedNext frames ∧
      feedFrames c frames s =
        .ok ({ s.after b' frames with expectedNext := s.expectedNext + frames.length }, none)) ∨
    Refused (feedFrames c frames s) := by
  induction frames generalizing s b with
  | nil =>
    refine .inl ⟨b, rfl, trivial, ?_⟩
    rw [feedFrames, after_nil open_]
    simp
  | cons f frames ih =>
    obtain ⟨first, rest⟩ := List.forall_mem_cons.mp digested
    rw [feedFrames]
    by_cases place : f.seq = s.expectedNext
    · rw [if_neg (not_not.mpr place)]
      by_cases beyond : f.seq > s.targetSeq
      · rw [if_pos beyond]
        exact .inr ⟨s, .coverage, _, rfl, by decide⟩
      · rw [if_neg beyond]
        rcases applyOne_cases open_ first with
          ⟨b₁, applied, stepped⟩ | ⟨s₁, cls, reason, stepped, bad⟩
        · rw [stepped, ok_bind]
          have next : (s.after b₁ [f]).expectedNext = s.expectedNext := rfl
          rcases @ih { s.after b₁ [f] with expectedNext := s.expectedNext + 1 } b₁ rfl rest with
            ⟨b', replayed, numbered, looped⟩ | refused
          · refine .inl ⟨b', ?_, ⟨place, numbered⟩, ?_⟩
            · rw [replayFrames, applied]
              exact replayed
            · have count : s.expectedNext + 1 + (frames.length : Int) =
                  s.expectedNext + ((f :: frames).length : Int) := by
                rw [List.length_cons]
                omega
              have same : ({ ({ s.after b₁ [f] with
                    expectedNext := s.expectedNext + 1 } : ReducerState).after b' frames with
                  expectedNext := s.expectedNext + 1 + frames.length } : ReducerState) =
                  { s.after b' (f :: frames) with
                    expectedNext := s.expectedNext + (f :: frames).length } := by
                rw [← after_cons s b₁ b' f frames, ← count]
                rfl
              show feedFrames c frames { s.after b₁ [f] with
                expectedNext := s.expectedNext + 1 } = _
              rw [looped, same]
          · exact .inr refused
        · rw [stepped, ok_bind]
          exact .inr ⟨s₁, cls, reason, rfl, bad⟩
    · rw [if_pos place]
      exact .inr ⟨s, .coverage, _, rfl, by decide⟩

def freshBuilders : Builders := (WalIndex.init, TxIdIndex.init)

/-- A reducer that has refused nothing and is not finished, after the frames it was fed. -/
structure Live (c : Crypto) (base : BaseView) (initialSeq targetSeq : Int) (fed : List Frame)
    (segments : Nat) (s : ReducerState) : Prop where
  running : s.terminal = false
  unfinished : s.finished = false
  built : ∃ b, s.builders = some b ∧ replayFrames c base freshBuilders fed = some b
  base : s.base = base
  target : s.targetSeq = targetSeq
  applied : s.applied = fed.length
  last : s.lastApplied = lastSeq initialSeq fed
  numbered : s.legacy = false →
    Numbered (initialSeq + 1) fed ∧ s.expectedNext = initialSeq + 1 + fed.length
  counted : s.segCount = segments

/-- A reducer whose indexes were given out. -/
structure Done (s : ReducerState) : Prop where
  running : s.terminal = false
  finished : s.finished = true

/-- A reducer that has failed. -/
structure Ended (classification : ReduceClass) (reason : String) (s : ReducerState) : Prop where
  terminal : s.terminal = true
  classification : s.classification = classification
  reason : s.reason = reason

theorem live_start (c : Crypto) (base : BaseView) (initialSeq targetSeq : Int)
    (limits : ReducerLimits) :
    Live c base initialSeq targetSeq [] 0 (start base initialSeq targetSeq limits) where
  running := rfl
  unfinished := rfl
  base := rfl
  target := rfl
  built := ⟨_, rfl, rfl⟩
  applied := rfl
  last := rfl
  numbered _ := ⟨trivial, by simp [start]⟩
  counted := rfl

theorem ended_toTerminal (s : ReducerState) (classification : ReduceClass) (reason : String) :
    Ended classification reason (s.toTerminal classification reason).1 :=
  ⟨rfl, rfl, rfl⟩

variable {base : BaseView} {initialSeq targetSeq : Int}

theorem Live.feedSegment (live : Live c base initialSeq targetSeq fed segments s)
    {segment : ValidatedWalSegment} {d : WalSegmentDescriptor}
    (orderly : Orderly c (some s) (.feedSegment segment d)) :
    (∃ s' result, s.feedSegment c segment d = .ok (s', result) ∧ result.ok = true ∧
      Live c base initialSeq targetSeq (fed ++ segment.frames) (segments + 1) s') ∨
    ∃ s' classification reason,
      s.feedSegment c segment d = .ok (s', ⟨false, classification, reason⟩) ∧
        classification ≠ .ok ∧ Ended classification reason s' := by
  have digested := orderly live.running live.unfinished
  unfold ReducerState.feedSegment
  rw [live.running, live.unfinished, if_neg Bool.false_ne_true, if_neg Bool.false_ne_true]
  cases fault : s.segmentFault segment d with
  | some e =>
    obtain ⟨classification, reason⟩ := e
    exact .inr ⟨_, classification, reason, rfl, segmentFault_ne_ok s segment d _ fault,
      ended_toTerminal s _ _⟩
  | none =>
    obtain ⟨b, open_, replayed⟩ := live.built
    rcases feedFrames_cases open_ (digested fault) with
      ⟨b', onward, numbered, looped⟩ | ⟨s₁, classification, reason, looped, bad⟩
    · refine .inl ⟨_, ⟨true, .ok, "ok"⟩, by simp only [looped, ok_bind]; rfl, rfl, ?_⟩
      rw [live.base] at onward
      exact
        { running := live.running
          unfinished := live.unfinished
          base := live.base
          target := live.target
          built := ⟨b', rfl, by rw [replayFrames_append, replayed, Option.bind_some, onward]⟩
          applied := by
            show s.applied + segment.frames.length = _
            rw [live.applied, List.length_append]
          last := by
            show lastSeq s.lastApplied segment.frames = _
            rw [live.last, lastSeq_append]
          numbered := fun flat => by
            obtain ⟨before, next⟩ := live.numbered flat
            have place : initialSeq + 1 + (fed.length : Int) = s.expectedNext := next.symm
            refine ⟨(numbered_append _ _ _).mpr ⟨before, by rw [place]; exact numbered⟩, ?_⟩
            show s.expectedNext + (segment.frames.length : Int) = _
            rw [next, List.length_append]
            push_cast
            omega
          counted := congrArg (· + 1) live.counted }
    · exact .inr ⟨_, classification, reason, by simp only [looped, ok_bind]; rfl, bad,
        ended_toTerminal s₁ _ _⟩

theorem Live.feedLegacyFrames (live : Live c base initialSeq targetSeq fed segments s)
    (orderly : Orderly c (some s) (.feedLegacyFrames frames uptoSeq)) :
    (∃ s' result, s.feedLegacyFrames c frames uptoSeq = .ok (s', result) ∧ result.ok = true ∧
      Live c base initialSeq targetSeq (fed ++ framesUpto uptoSeq frames) segments s') ∨
    ∃ s' classification reason,
      s.feedLegacyFrames c frames uptoSeq = .ok (s', ⟨false, classification, reason⟩) ∧
        classification ≠ .ok ∧ Ended classification reason s' := by
  obtain ⟨digested, -⟩ := orderly live.running
  unfold ReducerState.feedLegacyFrames
  rw [if_neg (by rw [live.running]; exact Bool.false_ne_true)]
  obtain ⟨b, open_, replayed⟩ := live.built
  have open' : ({ s with legacy := true } : ReducerState).builders = some b := open_
  rcases feedLegacyLoop_cases open' digested with
    ⟨b', onward, looped⟩ | ⟨s₁, classification, reason, looped, bad⟩
  · refine .inl ⟨_, ⟨true, .ok, "ok"⟩, by simp only [looped, ok_bind]; rfl, rfl, ?_⟩
    have base' : ({ s with legacy := true } : ReducerState).base = base := live.base
    rw [base'] at onward
    exact
      { running := live.running
        unfinished := live.unfinished
        base := live.base
        target := live.target
        built := ⟨b', rfl, by rw [replayFrames_append, replayed, Option.bind_some, onward]⟩
        applied := by
          show s.applied + (framesUpto uptoSeq frames).length = _
          rw [live.applied, List.length_append]
        last := by
          show lastSeq s.lastApplied (framesUpto uptoSeq frames) = _
          rw [live.last, lastSeq_append]
        numbered := nofun
        counted := live.counted }
  · exact .inr ⟨_, classification, reason, by simp only [looped, ok_bind]; rfl, bad,
      ended_toTerminal s₁ _ _⟩

/-- What a finished reducer gives out: every frame it was fed, applied one after the other, and if
it was fed segments, the frames that the target asks for. -/
structure Complete (c : Crypto) (base : BaseView) (initialSeq targetSeq : Int) (fed : List Frame)
    (segments : Nat) (result : ReplayResult) : Prop where
  replayed : replayFrames c base freshBuilders fed = some (result.index, result.txindex)
  applied : result.appliedCount = fed.length
  last : result.appliedSeq = lastSeq initialSeq fed
  covered : segments ≠ 0 → Numbered (initialSeq + 1) fed ∧ initialSeq + fed.length = targetSeq

theorem Live.finish (live : Live c base initialSeq targetSeq fed segments s)
    (orderly : Orderly c (some s) .finish) :
    (Done s.finish.1 ∧ s.finish.2.classification = .ok ∧
      Complete c base initialSeq targetSeq fed segments s.finish.2) ∨
    (s.finish.2 = emptyReplay .coverage ∧ Ended .coverage "cobertura incompleta" s.finish.1) := by
  have single := orderly live.running live.unfinished
  obtain ⟨b, open_, replayed⟩ := live.built
  unfold ReducerState.finish
  rw [live.running, live.unfinished, if_neg Bool.false_ne_true, if_neg Bool.false_ne_true]
  by_cases short : ¬s.legacy = true ∧ s.expectedNext ≠ s.targetSeq + 1
  · rw [if_pos short]
    exact .inr ⟨rfl, ended_toTerminal s _ _⟩
  · rw [if_neg short, open_]
    refine .inl ⟨⟨rfl, rfl⟩, rfl, replayed, live.applied, live.last, fun some_segment => ?_⟩
    cases flat : s.legacy with
    | true => exact absurd (live.counted.symm.trans (single flat)) some_segment
    | false =>
      obtain ⟨numbered, next⟩ := live.numbered flat
      rw [flat, live.target] at short
      simp only [Bool.false_eq_true, not_false_eq_true, true_and, not_not] at short
      exact ⟨numbered, by omega⟩

/-- The answers of a reducer: first those of calls that did what they were asked, then those that
report one failure. -/
def FailsClosed (answers : List ReducerAnswer) : Prop :=
  ∃ good bad classification reason, answers = good ++ bad ∧ classification ≠ .ok ∧
    (∀ answer ∈ good, answer.Succeeded) ∧
    ∀ answer ∈ bad, answer.Reports classification reason

variable {answer : ReducerAnswer}

theorem FailsClosed.cons (succeeded : answer.Succeeded) (closed : FailsClosed answers) :
    FailsClosed (answer :: answers) := by
  obtain ⟨good, bad, classification, reason, rfl, failure, fine, ended⟩ := closed
  exact ⟨answer :: good, bad, classification, reason, rfl, failure,
    List.forall_mem_cons.mpr ⟨succeeded, fine⟩, ended⟩

def GivesNothing (answers : List ReducerAnswer) : Prop :=
  ∀ result, .replay result ∈ answers → result.classification ≠ .ok

theorem Ended.run (ended : Ended classification reason s) (calls : List ReducerCall) :
    ∃ answers, (reducerMachine c).run (some s) calls = some (some s, answers) ∧
      ∀ answer ∈ answers, answer.Reports classification reason := by
  obtain ⟨terminal, rfl, rfl⟩ := ended
  induction calls with
  | nil => exact ⟨[], rfl, nofun⟩
  | cons call calls ih =>
    obtain ⟨answers, ran, reports⟩ := ih
    cases call with
    | feedSegment segment d =>
      refine ⟨.step ⟨false, s.classification, s.reason⟩ :: answers,
        (reducerMachine c).run_cons_eq_some.mpr ⟨some s, _, answers, ?_, ran, rfl⟩,
        List.forall_mem_cons.mpr ⟨rfl, reports⟩⟩
      simp [reducerMachine, ReducerState.feedSegment, terminal]
    | feedLegacyFrames frames uptoSeq =>
      refine ⟨.step ⟨false, s.classification, s.reason⟩ :: answers,
        (reducerMachine c).run_cons_eq_some.mpr ⟨some s, _, answers, ?_, ran, rfl⟩,
        List.forall_mem_cons.mpr ⟨rfl, reports⟩⟩
      simp [reducerMachine, ReducerState.feedLegacyFrames, terminal]
    | finish =>
      refine ⟨.replay (emptyReplay s.classification) :: answers,
        (reducerMachine c).run_cons_eq_some.mpr ⟨some s, _, answers, ?_, ran, rfl⟩,
        List.forall_mem_cons.mpr ⟨rfl, reports⟩⟩
      simp [reducerMachine, ReducerState.finish, terminal]

theorem givesNothing_of_reports (failure : classification ≠ .ok)
    (reports : ∀ answer ∈ answers, answer.Reports classification reason) :
    GivesNothing answers := by
  intro result member
  have empty : result = emptyReplay classification := reports _ member
  rw [empty]
  exact failure

theorem failsClosed_of_reports (failure : classification ≠ .ok)
    (reports : ∀ answer ∈ answers, answer.Reports classification reason) : FailsClosed answers :=
  ⟨[], answers, classification, reason, rfl, failure, nofun, reports⟩

theorem failsClosed_nil : FailsClosed [] :=
  ⟨[], [], .state, "", rfl, by decide, nofun, nofun⟩

theorem run_of_ended {s s' : ReducerState}
    (stepped : (reducerMachine c).step (some s) call = some (some s', answer))
    (ended : Ended classification reason s') (failure : classification ≠ .ok)
    (reported : answer.Reports classification reason) (calls : List ReducerCall) :
    ∃ answers, (reducerMachine c).run (some s) (call :: calls) = some (some s', answers) ∧
      FailsClosed answers ∧ GivesNothing answers := by
  obtain ⟨answers, ran, reports⟩ := ended.run (c := c) calls
  have all : ∀ a ∈ answer :: answers, a.Reports classification reason :=
    List.forall_mem_cons.mpr ⟨reported, reports⟩
  exact ⟨answer :: answers,
    (reducerMachine c).run_cons_eq_some.mpr ⟨_, _, _, stepped, ran, rfl⟩,
    failsClosed_of_reports failure all, givesNothing_of_reports failure all⟩

theorem feedLegacyLoop_of_empty (none : framesUpto uptoSeq frames = []) :
    feedLegacyLoop c uptoSeq frames s = .ok (s, .none) := by
  cases frames with
  | nil => rfl
  | cons f frames =>
    rw [feedLegacyLoop, if_pos]
    by_contra within
    rw [framesUpto, List.takeWhile_cons_of_pos (by simp [within])] at none
    cases none

theorem Done.run (done : Done s) (orderly : (reducerMachine c).Along (Orderly c) (some s) calls) :
    ∃ s' answers, (reducerMachine c).run (some s) calls = some (some s', answers) ∧
      FailsClosed answers ∧ GivesNothing answers := by
  induction calls generalizing s with
  | nil => exact ⟨s, [], rfl, failsClosed_nil, nofun⟩
  | cons call calls ih =>
    obtain ⟨here, onward⟩ := orderly
    cases call with
    | feedSegment segment d =>
      have stepped : (reducerMachine c).step (some s) (.feedSegment segment d) =
          some (some (s.toTerminal .state "feed após finish").1,
            .step ⟨false, .state, "feed após finish"⟩) := by
        simp [reducerMachine, ReducerState.feedSegment, done.running, done.finished, toTerminal]
      exact ⟨_, run_of_ended stepped (ended_toTerminal s _ _) (by decide) rfl calls⟩
    | feedLegacyFrames frames uptoSeq =>
      have none := (here done.running).2 done.finished
      have stepped : (reducerMachine c).step (some s) (.feedLegacyFrames frames uptoSeq) =
          some (some { s with legacy := true }, .step ⟨true, .ok, "ok"⟩) := by
        simp only [reducerMachine, ReducerState.feedLegacyFrames, done.running,
          Bool.false_eq_true, if_false, feedLegacyLoop_of_empty none, ok_bind]
        rfl
      have done' : Done { s with legacy := true } := ⟨done.running, done.finished⟩
      obtain ⟨s', answers, ran, closed, nothing⟩ := ih done' (onward _ _ stepped)
      refine ⟨s', _, (reducerMachine c).run_cons_eq_some.mpr ⟨_, _, _, stepped, ran, rfl⟩,
        closed.cons rfl, fun result member => ?_⟩
      rcases List.mem_cons.mp member with same | later
      · cases same
      · exact nothing result later
    | finish =>
      have stepped : (reducerMachine c).step (some s) .finish =
          some (some (s.toTerminal .state "finish duplicado").1, .replay (emptyReplay .state)) := by
        simp [reducerMachine, ReducerState.finish, done.running, done.finished]
      exact ⟨_, run_of_ended stepped (ended_toTerminal s _ _) (by decide) rfl calls⟩

def GivesComplete (c : Crypto) (base : BaseView) (initialSeq targetSeq : Int) (fed : List Frame)
    (segments : Nat) (calls : List ReducerCall) (answers : List ReducerAnswer) : Prop :=
  ∀ front back result, answers = front ++ .replay result :: back → result.classification = .ok →
    (∀ answer ∈ front, answer.Succeeded) ∧
    Complete c base initialSeq targetSeq (fed ++ fedFrames (calls.take front.length))
      (segments + (calls.take front.length).countP ReducerCall.isSegment) result ∧
    GivesNothing back

theorem GivesNothing.complete (nothing : GivesNothing answers) :
    GivesComplete c base initialSeq targetSeq fed segments calls answers := by
  intro front back result same accepted
  exact absurd accepted (nothing result (by rw [same]; simp))

theorem GivesComplete.cons {fed : List Frame} {segments : Nat} {call : ReducerCall}
    {calls : List ReducerCall} {step : ReducerStepResult} {answers : List ReducerAnswer}
    (succeeded : step.ok = true)
    (gives : GivesComplete c base initialSeq targetSeq (fed ++ call.frames)
      (segments + if call.isSegment then 1 else 0) calls answers) :
    GivesComplete c base initialSeq targetSeq fed segments (call :: calls)
      (.step step :: answers) := by
  intro front back result same accepted
  cases front with
  | nil => cases same
  | cons answer front =>
    rw [List.cons_append, List.cons.injEq] at same
    obtain ⟨rfl, same⟩ := same
    obtain ⟨before, complete, nothing⟩ := gives front back result same accepted
    refine ⟨List.forall_mem_cons.mpr ⟨succeeded, before⟩, ?_, nothing⟩
    rw [List.length_cons, List.take_succ_cons, fedFrames, List.flatMap_cons, ← List.append_assoc,
      List.countP_cons, Nat.add_comm (List.countP _ _), ← Nat.add_assoc]
    exact complete

theorem Live.feed (live : Live c base initialSeq targetSeq fed segments s)
    (orderly : Orderly c (some s) call) (unfinished : call ≠ .finish) :
    (∃ s' result, (reducerMachine c).step (some s) call = some (some s', .step result) ∧
      result.ok = true ∧ Live c base initialSeq targetSeq (fed ++ call.frames)
        (segments + if call.isSegment then 1 else 0) s') ∨
    ∃ s' classification reason, (reducerMachine c).step (some s) call =
        some (some s', .step ⟨false, classification, reason⟩) ∧
      classification ≠ .ok ∧ Ended classification reason s' := by
  cases call with
  | feedSegment segment d =>
    rcases live.feedSegment orderly with
      ⟨s', result, called, rest⟩ | ⟨s', classification, reason, called, rest⟩
    · exact .inl ⟨s', result, by simp only [reducerMachine, called], rest⟩
    · exact .inr ⟨s', classification, reason, by simp only [reducerMachine, called], rest⟩
  | feedLegacyFrames frames uptoSeq =>
    rcases live.feedLegacyFrames orderly with
      ⟨s', result, called, rest⟩ | ⟨s', classification, reason, called, rest⟩
    · exact .inl ⟨s', result, by simp only [reducerMachine, called], rest⟩
    · exact .inr ⟨s', classification, reason, by simp only [reducerMachine, called], rest⟩
  | finish => exact absurd rfl unfinished

theorem Live.run (live : Live c base initialSeq targetSeq fed segments s)
    (orderly : (reducerMachine c).Along (Orderly c) (some s) calls) :
    ∃ s' answers, (reducerMachine c).run (some s) calls = some (some s', answers) ∧
      FailsClosed answers ∧
      GivesComplete c base initialSeq targetSeq fed segments calls answers := by
  induction calls generalizing s fed segments with
  | nil =>
    have nothing : GivesNothing [] := nofun
    exact ⟨s, [], rfl, failsClosed_nil, nothing.complete⟩
  | cons call calls ih =>
    obtain ⟨here, onward⟩ := orderly
    by_cases finishes : call = .finish
    · subst finishes
      have stepped : (reducerMachine c).step (some s) .finish =
          some (some s.finish.1, .replay s.finish.2) := rfl
      rcases live.finish here with ⟨done, accepted, complete⟩ | ⟨empty, ended⟩
      · obtain ⟨s', answers, ran, closed, nothing⟩ := done.run (onward _ _ stepped)
        refine ⟨s', _, (reducerMachine c).run_cons_eq_some.mpr ⟨_, _, _, stepped, ran, rfl⟩,
          closed.cons accepted, ?_⟩
        intro front back result same ok
        cases front with
        | nil =>
          cases same
          refine ⟨nofun, ?_, nothing⟩
          rw [List.length_nil, List.take_zero, List.countP_nil, Nat.add_zero, fedFrames,
            List.flatMap_nil, List.append_nil]
          exact complete
        | cons answer front =>
          rw [List.cons_append, List.cons.injEq] at same
          exact absurd ok (nothing result (by rw [same.2]; simp))
      · obtain ⟨answers, ran, closed, nothing⟩ :=
          run_of_ended stepped ended (by decide) empty calls
        exact ⟨_, answers, ran, closed, nothing.complete⟩
    · rcases live.feed here finishes with
        ⟨s₁, result, stepped, succeeded, live'⟩ | ⟨s₁, classification, reason, stepped, bad, ended⟩
      · obtain ⟨s', answers, ran, closed, gives⟩ := ih live' (onward _ _ stepped)
        exact ⟨s', _, (reducerMachine c).run_cons_eq_some.mpr ⟨_, _, _, stepped, ran, rfl⟩,
          closed.cons succeeded, GivesComplete.cons succeeded gives⟩
      · obtain ⟨answers, ran, closed, nothing⟩ := run_of_ended stepped ended bad rfl calls
        exact ⟨s₁, answers, ran, closed, nothing.complete⟩

end ReducerState

open ReducerState (start Complete FailsClosed GivesNothing)

/-- Under calls in order no call raises; the answers are successes and then one failure, which is
repeated; and indexes are given out once, when all that was fed is applied. -/
theorem reducer_fails_closed (c : Crypto) (base : BaseView) (initialSeq targetSeq : Int)
    (limits : ReducerLimits) {calls : List ReducerCall}
    (orderly : (reducerMachine c).Along (Orderly c)
      (some (start base initialSeq targetSeq limits)) calls) :
    ∃ s answers, (reducerMachine c).run (some (start base initialSeq targetSeq limits)) calls =
        some (some s, answers) ∧
      FailsClosed answers ∧
      ∀ front back result, answers = front ++ .replay result :: back →
        result.classification = .ok →
        (∀ answer ∈ front, answer.Succeeded) ∧
        Complete c base initialSeq targetSeq (fedFrames (calls.take front.length))
          ((calls.take front.length).countP ReducerCall.isSegment) result ∧
        GivesNothing back := by
  obtain ⟨s, answers, ran, closed, gives⟩ :=
    (ReducerState.live_start c base initialSeq targetSeq limits).run orderly
  refine ⟨s, answers, ran, closed, fun front back result same accepted => ?_⟩
  obtain ⟨before, complete, nothing⟩ := gives front back result same accepted
  rw [List.nil_append, Nat.zero_add] at complete
  exact ⟨before, complete, nothing⟩

def putFrame : Frame := ⟨.put, 1, zeros 16, 42, 1, some 9⟩

def emptySegment : ValidatedWalSegment := ⟨⟨0, 0, 1, 0, [], 0⟩, [], 0, 0, false, true⟩

def emptyDescriptor : WalSegmentDescriptor := ⟨0, 0, 1, 0, 0, 0, [], 0, [], [], 0⟩

/-- Flat frames after a finish raise; and flat frames of any number, none even, make a machine give
out its indexes that has been fed a segment and has not reached its target. -/
theorem reducer_not_fails_closed :
    (reducerMachine stdCrypto).run (some (start emptyBaseView 0 0 unboundedReducerLimits))
        [.finish, .feedLegacyFrames [putFrame] none] =
      some (none, [.replay ⟨.ok, WalIndex.init, TxIdIndex.init, 0, 0⟩, .raised .attributeError]) ∧
    ∃ s, (reducerMachine stdCrypto).run (some (start emptyBaseView 0 7 unboundedReducerLimits))
        [.feedSegment emptySegment emptyDescriptor, .feedLegacyFrames [] none, .finish] =
      some (some s, [.step ⟨true, .ok, "ok"⟩, .step ⟨true, .ok, "ok"⟩,
        .replay ⟨.ok, WalIndex.init, TxIdIndex.init, 0, 0⟩]) :=
  ⟨rfl, _, rfl⟩

/-- One flat frame, and a finish. -/
theorem reducer_fails_closed_put :
    ∃ s answers, (reducerMachine stdCrypto).run
        (some (start emptyBaseView 0 0 unboundedReducerLimits))
        [.feedLegacyFrames [putFrame] none, .finish] = some (some s, answers) ∧
      FailsClosed answers := by
  have live := ReducerState.live_start stdCrypto emptyBaseView 0 0 unboundedReducerLimits
  have digested : putFrame.Digested stdCrypto :=
    contentDigest_ok stdCrypto .put (by decide) (by decide) (by decide)
  have first : Orderly stdCrypto (some (start emptyBaseView 0 0 unboundedReducerLimits))
      (.feedLegacyFrames [putFrame] none) :=
    fun _ => ⟨fun f member => by
      obtain rfl := List.mem_singleton.mp member
      exact digested, nofun⟩
  obtain ⟨s, answers, ran, closed, -⟩ := @reducer_fails_closed stdCrypto emptyBaseView 0 0
    unboundedReducerLimits [.feedLegacyFrames [putFrame] none, .finish] ⟨first, by
      intro next answer stepped
      refine ⟨?_, fun _ _ _ => trivial⟩
      rcases live.feedLegacyFrames first with
        ⟨s, result, called, -, live'⟩ | ⟨s, classification, reason, called, -, ended⟩
      · simp only [reducerMachine, called, Option.some.injEq, Prod.mk.injEq] at stepped
        obtain ⟨rfl, -⟩ := stepped
        exact fun _ _ _ => live'.counted
      · simp only [reducerMachine, called, Option.some.injEq, Prod.mk.injEq] at stepped
        obtain ⟨rfl, -⟩ := stepped
        exact fun running => by rw [ended.terminal] at running; cases running⟩
  exact ⟨s, answers, ran, closed⟩

end ProofRay.Engine
