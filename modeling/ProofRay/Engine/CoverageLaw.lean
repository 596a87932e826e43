/- The coverage law of a manifest: what `check_coverage` accepts tiles the sequence numbers after
   the base. -/

import Mathlib.Algebra.Order.BigOperators.Group.List
import ProofRay.Engine.Manifest
import ProofRay.Engine.Replay

namespace ProofRay.Engine

open Lib.Guard

def WalSegmentDescriptor.ends (s : WalSegmentDescriptor) : Int := s.firstSeq + s.recordCount

def WalSegmentDescriptor.Holds (s : WalSegmentDescriptor) (n : Int) : Prop :=
  s.firstSeq ≤ n ∧ n < s.ends

instance (s : WalSegmentDescriptor) (n : Int) : Decidable (s.Holds n) :=
  inferInstanceAs (Decidable (_ ∧ _))

/-- One segment right after another: no gap, no overlap, a greater identity and the digest of the
one before. -/
structure Follows (s t : WalSegmentDescriptor) : Prop where
  first : t.firstSeq = s.ends
  identity : s.segmentId < t.segmentId
  linked : t.prevSegmentDigest = s.sealedObjectSha256.take 16

/-- What a segment at its place has to be. -/
structure Admissible (i : Nat) (isLast : Prop) (s : WalSegmentDescriptor) : Prop where
  ordinal : s.ordinal = i
  range : 0 ≤ s.segmentId ∧ s.segmentId ≤ 4294967295
  status : s.status = stateSealed ∨ s.status = stateActive ∧ isLast
  count : 0 < s.recordCount ∨ s.recordCount = 0 ∧ s.status = stateActive
  durable : 0 < s.durablePrefixLength
  sealed_ : s.status = stateSealed → s.sealedObjectLength = s.durablePrefixLength ∧
    s.sealedObjectSha256 = s.durablePrefixSha256 ∧ s.sealedObjectSha256 ≠ zeros 32
  active : s.status = stateActive → s.sealedObjectLength = 0 ∧ s.sealedObjectSha256 = zeros 32

def recordTotal (segments : List WalSegmentDescriptor) : Int :=
  (segments.map fun s => s.recordCount).sum

def origin (baseSeq : Int) : WalSegmentDescriptor :=
  ⟨-1, -1, baseSeq + 1, 0, stateSealed, 0, zeros 32, 0, zeros 32, [], 0⟩

/-- The segments of a manifest tile the numbers after the base, up to the one it is read to. -/
structure Gapless (man : EpochManifest) : Prop where
  chained : (origin man.baseSeq :: man.segments).IsChain Follows
  admissible : ∀ k s, man.segments[k]? = some s → Admissible k (k + 1 = man.segments.length) s
  total : man.baseSeq + recordTotal man.segments = man.readSeq
  bounded : man.segments ≠ [] → man.readSeq + 1 < maxSeq

variable {before s : WalSegmentDescriptor} {segments : List WalSegmentDescriptor} {i : Nat}
  {final : Int} {man : EpochManifest}

theorem recordTotal_cons : recordTotal (s :: segments) = s.recordCount + recordTotal segments :=
  List.sum_cons

theorem states_apart : stateActive ≠ stateSealed := by decide

theorem segmentCoverageFault_eq_none {isLast extended : Bool} :
    segmentCoverageFault i isLast extended before.ends before.segmentId
        (before.sealedObjectSha256.take 16) s = none ↔
      Admissible i (isLast = true) s ∧ Follows before s := by
  simp only [segmentCoverageFault, ite_some_eq_none, not_not, ne_eq, and_true]
  constructor
  · rintro ⟨ordinal, range, mono, known, nonneg, first, front, -, filled, durable, canonical,
      canonical', chain⟩
    have marked : s.status ≠ stateActive → s.status = stateSealed := known.resolve_left
    refine ⟨⟨ordinal, range, ?_, ?_, not_le.mp durable, ?_, ?_⟩, first, not_le.mp mono, chain⟩
    · by_cases active : s.status = stateActive
      · exact .inr ⟨active, not_not.mp fun inner => front ⟨active, inner⟩⟩
      · exact .inl (marked active)
    · rcases (not_lt.mp nonneg).lt_or_eq with positive | zero
      · exact .inl positive
      · exact .inr ⟨zero.symm, (not_not.mp fun full => filled ⟨zero.symm, full⟩).2⟩
    · intro sealed_
      by_contra odd
      exact canonical ⟨sealed_, by tauto⟩
    · intro active
      by_contra odd
      exact canonical' ⟨fun sealed_ => states_apart (active.symm.trans sealed_), by tauto⟩
  · rintro ⟨h, follows⟩
    refine ⟨h.ordinal, h.range, not_le.mpr follows.identity, ?_, ?_, follows.first, ?_, ?_, ?_,
      not_le.mpr h.durable, ?_, ?_, follows.linked⟩
    · exact h.status.symm.imp_left And.left
    · rcases h.count with positive | ⟨zero, -⟩ <;> omega
    · rintro ⟨active, inner⟩
      rcases h.status with sealed_ | ⟨-, last⟩
      · exact states_apart (active.symm.trans sealed_)
      · exact inner last
    · rintro ⟨sealed_, -, -, zero⟩
      rcases h.count with positive | ⟨-, active⟩
      · omega
      · exact states_apart (active.symm.trans sealed_)
    · rintro ⟨zero, odd⟩
      rcases h.count with positive | ⟨-, active⟩
      · omega
      · rcases h.status with sealed_ | ⟨-, last⟩
        · exact states_apart (active.symm.trans sealed_)
        · exact odd ⟨last, active⟩
    · rintro ⟨sealed_, odd⟩
      have canonical := h.sealed_ sealed_
      tauto
    · rintro ⟨notSealed, odd⟩
      rcases h.status with sealed_ | ⟨active, -⟩
      · exact notSealed sealed_
      · have canonical := h.active active
        tauto

theorem recordCount_nonneg {isLast : Prop} (h : Admissible i isLast s) : 0 ≤ s.recordCount := by
  rcases h.count with positive | ⟨zero, -⟩
  · exact positive.le
  · exact zero.ge

theorem admissible_cons :
    (∀ k t, (s :: segments)[k]? = some t → Admissible (i + k) (k + 1 = (s :: segments).length) t) ↔
    Admissible i (segments.isEmpty = true) s ∧
      ∀ k t, segments[k]? = some t → Admissible (i + 1 + k) (k + 1 = segments.length) t := by
  have last : (0 + 1 = (s :: segments).length) = (segments.isEmpty = true) := by
    cases segments <;> simp
  have later (k : Nat) : (k + 1 + 1 = (s :: segments).length) = (k + 1 = segments.length) := by
    simp
  have index (k : Nat) : i + (k + 1) = i + 1 + k := by omega
  constructor
  · intro all
    refine ⟨last ▸ all 0 s rfl, fun k t found => ?_⟩
    rw [← index, ← later]
    exact all (k + 1) t found
  · rintro ⟨first, rest⟩ k t found
    cases k with
    | zero =>
      cases found
      rw [last]
      exact first
    | succ k =>
      rw [index, later]
      exact rest k t found

theorem recordTotal_nonneg (nonneg : ∀ s ∈ segments, 0 ≤ s.recordCount) :
    0 ≤ recordTotal segments := by
  refine List.sum_nonneg fun n member => ?_
  obtain ⟨t, inside, rfl⟩ := List.mem_map.mp member
  exact nonneg t inside

theorem nonneg_of_admissible
    (all : ∀ k t, segments[k]? = some t → Admissible (i + k) (k + 1 = segments.length) t) :
    ∀ s ∈ segments, 0 ≤ s.recordCount := by
  intro s member
  obtain ⟨k, found⟩ := List.mem_iff_getElem?.mp member
  exact recordCount_nonneg (all k s found)

theorem coverageLoop_eq_ok {extended : Bool} :
    coverageLoop extended segments i before.ends before.segmentId
        (before.sealedObjectSha256.take 16) = .ok final ↔
      (before :: segments).IsChain Follows ∧
        (∀ k t, segments[k]? = some t → Admissible (i + k) (k + 1 = segments.length) t) ∧
        before.ends + recordTotal segments = final ∧ (segments ≠ [] → final < maxSeq) := by
  induction segments generalizing before i with
  | nil => simp [coverageLoop, recordTotal]
  | cons s segments ih =>
    rw [coverageLoop, List.isChain_cons_cons, admissible_cons, recordTotal_cons]
    cases fault : segmentCoverageFault i segments.isEmpty extended before.ends before.segmentId
        (before.sealedObjectSha256.take 16) s with
    | some reason =>
      refine iff_of_false nofun ?_
      rintro ⟨⟨follows, -⟩, ⟨fit, -⟩, -⟩
      cases fault.symm.trans (segmentCoverageFault_eq_none.mpr ⟨fit, follows⟩)
    | none =>
      obtain ⟨fit, follows⟩ := segmentCoverageFault_eq_none.mp fault
      have ends : before.ends + s.recordCount = s.ends := by
        rw [← follows.first]
        rfl
      dsimp only
      rw [← add_assoc, ends]
      by_cases full : maxSeq ≤ s.ends
      · rw [if_pos full]
        refine iff_of_false nofun ?_
        rintro ⟨-, ⟨-, rest⟩, rfl, bounded⟩
        have more := recordTotal_nonneg (nonneg_of_admissible rest)
        have below := bounded (List.cons_ne_nil s segments)
        omega
      · rw [if_neg full, ih]
        constructor
        · rintro ⟨chain, rest, rfl, bounded⟩
          refine ⟨⟨follows, chain⟩, ⟨fit, rest⟩, rfl, fun _ => ?_⟩
          cases segments with
          | nil => simpa [recordTotal] using not_le.mp full
          | cons t segments => exact bounded (List.cons_ne_nil t segments)
        · rintro ⟨⟨-, chain⟩, ⟨-, rest⟩, total, bounded⟩
          exact ⟨chain, rest, total, fun _ => bounded (List.cons_ne_nil s segments)⟩

theorem checkCoverage_eq_none : checkCoverage man = none ↔ Gapless man := by
  have start : man.baseSeq + 1 = (origin man.baseSeq).ends := (add_zero _).symm
  have total : (origin man.baseSeq).ends + recordTotal man.segments = man.readSeq + 1 ↔
      man.baseSeq + recordTotal man.segments = man.readSeq := by
    rw [← start]
    omega
  by_cases empty : man.segments = []
  · have covered : Gapless man ↔ man.baseSeq = man.readSeq := by
      constructor
      · intro h
        simpa [empty, recordTotal] using h.total
      · intro same
        exact ⟨by simp [empty], by simp [empty], by simpa [empty, recordTotal] using same,
          fun some_left => absurd empty some_left⟩
    rw [covered, checkCoverage, ite_some_eq_none, if_pos empty]
    split
    · rename_i same
      exact iff_of_true ⟨by omega, rfl⟩ same.symm
    · rename_i differs
      exact iff_of_false nofun (Ne.symm differs)
  · have loop (final : Int) := @coverageLoop_eq_ok (origin man.baseSeq) man.segments 0 final
      (decide (man.baseSeq < man.readSeq))
    rw [← start] at loop
    have bounds : (∀ k t, man.segments[k]? = some t →
        Admissible (0 + k) (k + 1 = man.segments.length) t) ↔
        ∀ k t, man.segments[k]? = some t → Admissible k (k + 1 = man.segments.length) t := by
      simp only [Nat.zero_add]
    rw [checkCoverage, ite_some_eq_none, if_neg empty]
    constructor
    · rintro ⟨-, looped⟩
      split at looped
      · cases looped
      · rename_i final ran
        rw [ite_some_eq_none, not_not] at looped
        obtain ⟨chain, fits, sum, bounded⟩ := (loop final).mp ran
        rw [looped.1] at sum bounded
        exact ⟨chain, bounds.mp fits, total.mp (start ▸ sum), bounded⟩
    · rintro ⟨chain, fits, sum, bounded⟩
      have ran : coverageLoop (decide (man.baseSeq < man.readSeq)) man.segments 0
          (man.baseSeq + 1) (-1) (zeros 16) = .ok (man.readSeq + 1) :=
        (loop (man.readSeq + 1)).mpr ⟨chain, bounds.mpr fits, start ▸ total.mpr sum, bounded⟩
      have more := recordTotal_nonneg (nonneg_of_admissible (bounds.mpr fits))
      refine ⟨by omega, ?_⟩
      rw [ran]
      simp

theorem countP_holds {n : Int} (chain : (before :: segments).IsChain Follows)
    (nonneg : ∀ s ∈ segments, 0 ≤ s.recordCount) :
    segments.countP (fun s => s.Holds n) =
      if before.ends ≤ n ∧ n < before.ends + recordTotal segments then 1 else 0 := by
  induction segments generalizing before with
  | nil =>
    rw [List.countP_nil, if_neg]
    rintro ⟨above, below⟩
    simp only [recordTotal, List.map_nil, List.sum_nil] at below
    omega
  | cons s segments ih =>
    obtain ⟨follows, chain⟩ := List.isChain_cons_cons.mp chain
    obtain ⟨here, later⟩ := List.forall_mem_cons.mp nonneg
    have more := recordTotal_nonneg later
    have ends : before.ends + s.recordCount = s.ends := by
      rw [← follows.first]
      rfl
    rw [List.countP_cons, ih chain later, recordTotal_cons, ← add_assoc, ends]
    simp only [decide_eq_true_eq, WalSegmentDescriptor.Holds, follows.first]
    split_ifs <;> omega

namespace ReducerState

variable {c : Crypto} {base : BaseView} {target : Int} {limits : ReducerLimits} {p : Progress}
  {segment : ValidatedWalSegment} {d : WalSegmentDescriptor} {r r' : ReducerState}
  {result : ReducerStepResult} {b : Builders} {frames : List Frame} {f : Frame}
  {classification : ReduceClass} {reason : String}

theorem applyFrame_ne_coverage
    (refused : applyFrame c base b f = .ok (.error (classification, reason))) :
    classification ≠ .coverage := by
  simp only [applyFrame, bind_eq_ok, pure_eq_ok, applyDigested] at refused
  obtain ⟨digest, -, refused⟩ := refused
  repeat' split at refused
  all_goals cases refused
  all_goals simp

theorem feedFrames_ne_coverage (numbered : Numbered r.expectedNext frames)
    (within : r.expectedNext + frames.length ≤ r.targetSeq + 1)
    (fed : feedFrames c frames r = .ok (r', some (classification, reason))) :
    classification ≠ .coverage := by
  induction frames generalizing r with
  | nil => cases fed
  | cons f frames ih =>
    obtain ⟨place, rest⟩ := numbered
    rw [List.length_cons] at within
    rw [feedFrames, if_neg (not_not.mpr place), if_neg (by omega)] at fed
    obtain ⟨⟨r₁, failure⟩, stepped, fed⟩ := bind_eq_ok.mp fed
    rw [applyOne] at stepped
    split at stepped
    · cases stepped
    · obtain ⟨outcome, applied, stepped⟩ := bind_eq_ok.mp stepped
      cases outcome with
      | ok b' =>
        cases stepped
        exact ih rest (by push_cast at within ⊢; omega) fed
      | error e =>
        cases stepped
        cases fed
        exact applyFrame_ne_coverage applied

theorem feedSegment_ne_coverage (ordinal : d.ordinal = p.segCount)
    (identity : p.prevSegmentId < d.segmentId) (first : d.firstSeq = p.next)
    (count : (segment.frames.length : Int) = d.recordCount)
    (numbered : Numbered p.next segment.frames)
    (within : p.next + segment.frames.length ≤ target + 1)
    (fed : (live base target limits p).feedSegment c segment d = .ok (r', result))
    (refused : result.ok = false) : r'.finish.2.classification ≠ .coverage := by
  have faults : ∀ e ∈ (live base target limits p).segmentFault segment d, e.1 ≠ .coverage := by
    have ordinal' : ¬d.ordinal ≠ (live base target limits p).segCount := not_not.mpr ordinal
    have identity' : ¬d.segmentId ≤ (live base target limits p).prevSegmentId :=
      not_le.mpr identity
    have first' : ¬d.firstSeq ≠ (live base target limits p).expectedNext := not_not.mpr first
    unfold segmentFault
    refine forall_mem_ite_some (by decide) ?_
    rw [if_neg ordinal', if_neg identity', if_neg first', if_neg (not_not.mpr count)]
    repeat refine forall_mem_ite_some (by decide) ?_
    simp
  have open_ : (live base target limits p).terminal = false := rfl
  have unfinished : (live base target limits p).finished = false := rfl
  simp only [feedSegment, open_, unfinished, if_false, Bool.false_eq_true] at fed
  split at fed
  · rename_i fault
    cases fed
    exact faults _ fault
  · obtain ⟨⟨r₁, failure⟩, looped, fed⟩ := bind_eq_ok.mp fed
    cases failure with
    | none =>
      cases fed
      cases refused
    | some e =>
      cases fed
      exact feedFrames_ne_coverage (r := live base target limits p) numbered within looped

theorem feedSegments_ne_coverage {feeds : List SegmentFeed} {before : WalSegmentDescriptor}
    (place : p.prevSegmentId = before.segmentId ∧ p.next = before.ends)
    (chain : (before :: feeds.map Prod.snd).IsChain Follows)
    (ordinals : ∀ (k : Nat) t, (feeds.map Prod.snd)[k]? = some t →
      t.ordinal = (p.segCount : Int) + k) (nonneg : ∀ t ∈ feeds.map Prod.snd, 0 ≤ t.recordCount)
    (reaches : before.ends + recordTotal (feeds.map Prod.snd) = target + 1)
    (numbered : ∀ s ∈ feeds, Numbered s.2.firstSeq s.1.frames ∧
      (s.1.frames.length : Int) = s.2.recordCount)
    (fed : feedSegments c feeds (live base target limits p) = .ok (r', result)) :
    r'.finish.2.classification ≠ .coverage := by
  induction feeds generalizing p before with
  | nil =>
    cases fed
    rw [finish_live, place.2, if_pos (by simpa [recordTotal] using reaches)]
    nofun
  | cons s feeds ih =>
    obtain ⟨segment, d⟩ := s
    obtain ⟨follows, chain⟩ := List.isChain_cons_cons.mp chain
    obtain ⟨here, later⟩ := List.forall_mem_cons.mp nonneg
    obtain ⟨⟨inOrder, count⟩, rest⟩ := List.forall_mem_cons.mp numbered
    have count : (segment.frames.length : Int) = d.recordCount := count
    have more := recordTotal_nonneg later
    have first : d.firstSeq = p.next := follows.first.trans place.2.symm
    have ends : before.ends + d.recordCount = d.ends := by
      rw [← follows.first]
      rfl
    rw [List.map_cons, recordTotal_cons, ← add_assoc, ends] at reaches
    obtain ⟨⟨r₁, step⟩, stepped, fed⟩ := bind_eq_ok.mp fed
    dsimp only at fed
    split at fed
    · rename_i accepted
      obtain ⟨b, accepts, rfl⟩ := accepts_of_feedSegment stepped accepted
      have next : (p.after segment d b).next = d.ends := by
        rw [WalSegmentDescriptor.ends, first, ← count]
        rfl
      refine ih ⟨rfl, next⟩ chain (fun k t found => ?_) later reaches rest fed
      have shifted := ordinals (k + 1) t found
      show t.ordinal = ((p.segCount + 1 : Nat) : Int) + k
      push_cast at shifted ⊢
      omega
    · rename_i refused
      cases fed
      refine feedSegment_ne_coverage (by simpa using ordinals 0 d rfl)
        (place.1 ▸ follows.identity) first count (first ▸ inOrder) ?_ stepped
        (Bool.eq_false_iff.mpr refused)
      have next : p.next + (segment.frames.length : Int) = d.ends := by
        rw [WalSegmentDescriptor.ends, first, ← count]
      omega

end ReducerState

open ReducerState in
/-- `check_coverage` accepts exactly the manifests whose segments tile the numbers after the base;
each of these is then in one segment and no other number in any, and a reducer fed with the
segments does not end for their coverage. -/
theorem coverage_law (c : Crypto) (man : EpochManifest) (base : BaseView) (limits : ReducerLimits) :
    (checkCoverage man = none ↔ Gapless man) ∧
    (checkCoverage man = none → ∀ n, man.segments.countP (fun s => s.Holds n) =
      if man.baseSeq < n ∧ n ≤ man.readSeq then 1 else 0) ∧
    (checkCoverage man = none → ∀ feeds : List SegmentFeed, feeds.map Prod.snd = man.segments →
      (∀ s ∈ feeds, Numbered s.2.firstSeq s.1.frames ∧
        (s.1.frames.length : Int) = s.2.recordCount) →
      ∀ r result, feedSegments c feeds (ReducerState.start base man.baseSeq man.readSeq limits) =
        .ok (r, result) → r.finish.2.classification ≠ .coverage) := by
  have start : (origin man.baseSeq).ends = man.baseSeq + 1 := add_zero _
  refine ⟨checkCoverage_eq_none, fun accepted n => ?_, fun accepted feeds same numbered r result
    fed => ?_⟩
  · obtain ⟨chain, fits, total, -⟩ := checkCoverage_eq_none.mp accepted
    have fits' : ∀ k t, man.segments[k]? = some t →
        Admissible (0 + k) (k + 1 = man.segments.length) t := by
      simpa only [Nat.zero_add] using fits
    rw [countP_holds chain (nonneg_of_admissible fits'), start]
    have bounds : man.baseSeq + 1 ≤ n ∧ n < man.baseSeq + 1 + recordTotal man.segments ↔
        man.baseSeq < n ∧ n ≤ man.readSeq := by omega
    simp only [bounds]
  · obtain ⟨chain, fits, total, -⟩ := checkCoverage_eq_none.mp accepted
    rw [← same] at chain fits total
    have fits' : ∀ k t, (feeds.map Prod.snd)[k]? = some t →
        Admissible (0 + k) (k + 1 = (feeds.map Prod.snd).length) t := by
      simpa only [Nat.zero_add] using fits
    rw [start_eq_live] at fed
    refine feedSegments_ne_coverage ⟨rfl, start.symm⟩ chain (fun k t found => ?_)
      (nonneg_of_admissible fits') ?_ numbered fed
    · rw [(fits k t found).ordinal]
      exact (zero_add _).symm
    · rw [start]
      omega

def settledManifest (seq : Int) (segments : List WalSegmentDescriptor) : EpochManifest :=
  ⟨1, 0, 0, seq, seq, -1, zeros 32, fun _ => ⟨0, false, 0, [], 0⟩, segments, 0⟩

def emptyActive (segmentId : Int) : WalSegmentDescriptor :=
  ⟨0, segmentId, 1, 0, stateActive, 1, zeros 32, 0, zeros 32, zeros 16, 0⟩

/-- Without segments nothing bounds the next number, and an identity is bounded. -/
theorem not_coverage_law :
    (checkCoverage (settledManifest (maxSeq - 1) []) = none ∧
      ¬(settledManifest (maxSeq - 1) []).readSeq + 1 < maxSeq) ∧
    checkCoverage (settledManifest 0 [emptyActive 4294967295]) = none ∧
    checkCoverage (settledManifest 0 [emptyActive 4294967296]) ≠ none := by
  decide

end ProofRay.Engine
