/- Arc consistency over bit masks for binary forests, and exactly when what it answers is what the
   possible worlds say. -/

import ProofRay.Hdem.BinaryForest
import ProofRay.Hdem.Packed

namespace ProofRay.Hdem

open Engine (Crypto PyError stdCrypto)
open Lib (sortedSet)
open Lib.ConstraintNet
open Lib.Guard
open Lib.Saturation
open Sidecar (Canonical)
open Function (update_of_ne update_self)

/-- `int.bit_count`. -/
def bitCount (n : Nat) : Nat := (List.range (n.log2 + 1)).countP n.testBit

theorem and_bit_ne_zero {n i : Nat} : n &&& (1 <<< i) ≠ 0 ↔ n.testBit i = true := by
  rw [Nat.one_shiftLeft]
  constructor
  · intro some_bit
    obtain ⟨j, set⟩ := Nat.exists_testBit_of_ne_zero some_bit
    rw [Nat.testBit_and, Nat.testBit_two_pow, Bool.and_eq_true, decide_eq_true_eq] at set
    exact set.2 ▸ set.1
  · intro set none
    have bit : (n &&& 2 ^ i).testBit i = true := by
      rw [Nat.testBit_and, set, Nat.testBit_two_pow_self]
      rfl
    rw [none, Nat.zero_testBit] at bit
    cases bit

theorem bitCount_eq {n bound : Nat} (small : n < 2 ^ bound) :
    bitCount n = (List.range bound).countP n.testBit := by
  have beyond : ∀ m ≥ n.log2 + 1, (List.range m).countP n.testBit = bitCount n := by
    intro m enough
    induction m, enough using Nat.le_induction with
    | base => rfl
    | succ m enough ih =>
      have clear : n.testBit m = false :=
        Nat.testBit_lt_two_pow (Nat.lt_of_lt_of_le Nat.lt_log2_self
          (Nat.pow_le_pow_right Nat.two_pos enough))
      rw [List.range_succ, List.countP_append, ih]
      simp [clear]
  have within : ∀ m ≥ bound, (List.range m).countP n.testBit =
      (List.range bound).countP n.testBit := by
    intro m enough
    induction m, enough using Nat.le_induction with
    | base => rfl
    | succ m enough ih =>
      have clear : n.testBit m = false :=
        Nat.testBit_lt_two_pow (Nat.lt_of_lt_of_le small (Nat.pow_le_pow_right Nat.two_pos enough))
      rw [List.range_succ, List.countP_append, ih]
      simp [clear]
  rw [← beyond (max (n.log2 + 1) bound) (Nat.le_max_left _ _),
    within (max (n.log2 + 1) bound) (Nat.le_max_right _ _)]

theorem bitCount_and_add (n mask : Nat) :
    bitCount (n ^^^ (n &&& mask)) + bitCount (n &&& mask) = bitCount n := by
  have small : n < 2 ^ (n.log2 + 1) := Nat.lt_log2_self
  have left : n &&& mask < 2 ^ (n.log2 + 1) := Nat.lt_of_le_of_lt Nat.and_le_left small
  have away : n ^^^ (n &&& mask) < 2 ^ (n.log2 + 1) := Nat.xor_lt_two_pow small left
  rw [bitCount_eq away, bitCount_eq left, bitCount_eq small]
  induction List.range (n.log2 + 1) with
  | nil => rfl
  | cons i l ih =>
    simp only [List.countP_cons, Nat.testBit_xor, Nat.testBit_and]
    cases n.testBit i <;> cases mask.testBit i <;> simp <;> omega

theorem bitCount_eq_zero {n : Nat} : bitCount n = 0 ↔ n = 0 := by
  constructor
  · intro none
    by_contra some_bit
    obtain ⟨i, set⟩ := Nat.exists_testBit_of_ne_zero some_bit
    have small : i < n.log2 + 1 := by
      by_contra large
      have clear : n.testBit i = false := Nat.testBit_lt_two_pow
        (Nat.lt_of_lt_of_le Nat.lt_log2_self (Nat.pow_le_pow_right Nat.two_pos (by omega)))
      rw [clear] at set
      cases set
    have counted := List.countP_eq_zero.mp none i (List.mem_range.mpr small)
    exact counted set
  · rintro rfl
    rfl

/-- `masks`: the values left to each name, as bits. -/
abbrev Masks := String → Nat

/-- `1 << value_index[name][value]`. -/
def bitOf (problem : HDEMProblem) (name value : String) : Nat :=
  1 <<< (problem.domain name).idxOf value

def valuesOf (problem : HDEMProblem) (masks : Masks) (name : String) : List String :=
  ((problem.domain name).zipIdx.filter fun p => masks name &&& (1 <<< p.2) ≠ 0).map Prod.fst

/-- `supported_mask`: the values at a position in the rows that are still allowed, as bits. -/
def supportedMask (problem : HDEMProblem) (masks : Masks) (arc : Arc) : Nat :=
  arc.constraint.allowed.foldl (fun mask row =>
    if ∀ p ∈ arc.constraint.vars.zip row, masks p.1 &&& bitOf problem p.1 p.2 ≠ 0 then
      mask ||| bitOf problem arc.name (row.getD arc.position "")
    else mask) 0

/-- The masks of a run, and how many values it has revised. -/
structure Revision where
  masks : Masks
  revisions : Nat

/-- How a run ends before its fixed point. -/
inductive HdcaStop where
  | budget (s : Revision)
  | inconsistent (s : Revision)

def revise (problem : HDEMProblem) (maxRevisions : Nat) (arc : Arc) (s : Revision) :
    Except HdcaStop (Option Revision) :=
  let current := s.masks arc.name
  let revised := current &&& supportedMask problem s.masks arc
  let removed := bitCount (current ^^^ revised)
  if removed = 0 then .ok none
  else
    let revisions := s.revisions + removed
    if revisions > maxRevisions then .error (.budget s)
    else
      let next : Revision := ⟨Function.update s.masks arc.name revised, revisions⟩
      if revised = 0 then .error (.inconsistent next) else .ok (some next)

/-- `HDCAResult`. -/
structure HDCAResult where
  state : HDEMState
  answer : Option (List String)
  domains : List (String × List String)
  proofFactIds : List Int
  certifiedAcyclic : Bool
  revisions : Nat
  problemSha256 : String
  reason : String
  deriving DecidableEq, Repr

def proofOf (problem : HDEMProblem) (masks : Masks) : List Int :=
  sortedSet id ((problem.constraints.flatMap fun k => k.witnessFactIds) ++
    problem.answerVariables.flatMap fun name =>
      (valuesOf problem masks name).flatMap (factIdsOf problem name))

def hdcaAnswer (c : Crypto) (problem : HDEMProblem) (s : Revision) : HDCAResult :=
  let domains := problem.names.map fun name => (name, valuesOf problem s.masks name)
  let answerDomains := problem.answerVariables.map (valuesOf problem s.masks)
  let proof := proofOf problem s.masks
  if ∀ values ∈ answerDomains, values.length = 1 then
    ⟨.resolved, some (answerDomains.map fun values => values.headD ""), domains, proof, true,
      s.revisions, problem.canonicalSha256 c, "unique answer bit in acyclic fixed point"⟩
  else
    ⟨.contested, none, domains, proof, true, s.revisions, problem.canonicalSha256 c,
      "multiple globally extensible answer bits"⟩

/-- `solve_hdca`. -/
def solveHdca (c : Crypto) (problem : HDEMProblem) (maxRevisions : Int) :
    Except PyError HDCAResult := do
  require (1 ≤ maxRevisions) (PyError.valueError "H-DCA revision budget must be positive")
  let masks : Masks := fun name => (1 <<< (problem.domain name).length) - 1
  let abstain (domains : String → List String) (acyclic : Bool) (revisions : Nat)
      (reason : String) : HDCAResult :=
    ⟨.abstain, none, problem.names.map fun name => (name, domains name), [], acyclic, revisions,
      problem.canonicalSha256 c, reason⟩
  if hdcaIsBinaryForest problem = false then
    return abstain problem.domain false 0 "cyclic or higher-arity context requires the H-DEM oracle"
  else
    match saturate (revise problem maxRevisions.toNat) problem.arcs
        (size problem problem.domain + 1) ⟨masks, 0⟩ with
    | .error (.budget s) =>
      return abstain (valuesOf problem s.masks) true s.revisions "H-DCA revision budget exhausted"
    | .error (.inconsistent s) =>
      return abstain (valuesOf problem s.masks) true s.revisions
        "acyclic context has no consistent assignment"
    | .ok s => return hdcaAnswer c problem s

def Fits (problem : HDEMProblem) (masks : Masks) : Prop :=
  ∀ name i, (masks name).testBit i = true → i < (problem.domain name).length

section

variable {problem : HDEMProblem} {masks : Masks} {arc : Arc} {name value : String}

theorem valuesOf_eq_filter : valuesOf problem masks name = (problem.domain name).filter
    fun value => (masks name).testBit ((problem.domain name).idxOf value) := by
  have index : ∀ p ∈ (problem.domain name).zipIdx,
      decide (masks name &&& (1 <<< p.2) ≠ 0) =
        (masks name).testBit ((problem.domain name).idxOf p.1) := by
    rintro ⟨value, i⟩ member
    have place := List.mk_mem_zipIdx_iff_getElem?.mp member
    obtain ⟨inRange, here⟩ := List.getElem?_eq_some_iff.mp place
    have first : (problem.domain name).idxOf value = i := by
      rw [← here]
      exact (problem.domain_nodup name).idxOf_getElem i inRange
    rw [Bool.eq_iff_iff, decide_eq_true_eq, and_bit_ne_zero, first]
  have values : problem.domain name = (problem.domain name).zipIdx.map Prod.fst :=
    List.zipIdx_map_fst _ _ |>.symm
  rw [valuesOf, List.filter_congr index]
  conv_rhs => rw [values]
  rw [List.filter_map, ← values]
  rfl

theorem mem_valuesOf : value ∈ valuesOf problem masks name ↔ value ∈ problem.domain name ∧
    (masks name).testBit ((problem.domain name).idxOf value) = true := by
  rw [valuesOf_eq_filter, List.mem_filter]

theorem mem_domain_of_row (member : arc ∈ problem.arcs) {row : List String}
    (allowed : row ∈ arc.constraint.allowed) :
    row.getD arc.position "" ∈ problem.domain arc.name := by
  obtain ⟨known, place⟩ := mem_arcs.mp member
  have length := arc.constraint.relation.2.2 row allowed
  obtain ⟨inRange, here⟩ := List.getElem?_eq_some_iff.mp place
  have inRow : arc.position < row.length := by omega
  refine problem.inside arc.constraint known row allowed (arc.name, row.getD arc.position "") ?_
  rw [List.mem_iff_getElem]
  refine ⟨arc.position, by simp [inRange, inRow], ?_⟩
  simp [here, inRow]

theorem testBit_supportedMask (member : arc ∈ problem.arcs) {i : Nat} :
    (supportedMask problem masks arc).testBit i = true ↔
      ∃ value ∈ supportedAt (valuesOf problem masks) arc,
        (problem.domain arc.name).idxOf value = i := by
  have known := (mem_arcs.mp member).1
  have bits : ∀ (rows : List (List String)) (mask : Nat),
      (rows.foldl (fun mask row =>
        if ∀ p ∈ arc.constraint.vars.zip row, masks p.1 &&& bitOf problem p.1 p.2 ≠ 0 then
          mask ||| bitOf problem arc.name (row.getD arc.position "")
        else mask) mask).testBit i = true ↔ mask.testBit i = true ∨ ∃ row ∈ rows,
          (∀ p ∈ arc.constraint.vars.zip row, masks p.1 &&& bitOf problem p.1 p.2 ≠ 0) ∧
            (problem.domain arc.name).idxOf (row.getD arc.position "") = i := by
    intro rows
    induction rows with
    | nil => simp
    | cons row rows ih =>
      intro mask
      rw [List.foldl_cons, ih]
      by_cases allowed : ∀ p ∈ arc.constraint.vars.zip row, masks p.1 &&& bitOf problem p.1 p.2 ≠ 0
      · have bit : (bitOf problem arc.name (row.getD arc.position "")).testBit i = true ↔
            (problem.domain arc.name).idxOf (row.getD arc.position "") = i := by
          rw [bitOf, Nat.one_shiftLeft, Nat.testBit_two_pow, decide_eq_true_eq]
        rw [if_pos allowed, Nat.testBit_or, Bool.or_eq_true, bit, List.exists_mem_cons_iff,
          and_iff_right allowed, or_assoc]
      · rw [if_neg allowed, List.exists_mem_cons_iff]
        simp only [allowed, false_and, false_or]
  rw [supportedMask, bits]
  simp only [Nat.zero_testBit, Bool.false_eq_true, false_or, supportedAt, List.mem_map,
    List.mem_filter, decide_eq_true_eq]
  have alive {row : List String} (allowed : row ∈ arc.constraint.allowed) :
      (∀ p ∈ arc.constraint.vars.zip row, masks p.1 &&& bitOf problem p.1 p.2 ≠ 0) ↔
        ∀ p ∈ arc.constraint.vars.zip row, p.2 ∈ valuesOf problem masks p.1 := by
    refine forall₂_congr fun p inRow => ?_
    rw [bitOf, and_bit_ne_zero, mem_valuesOf]
    exact (and_iff_right (problem.inside arc.constraint known row allowed p inRow)).symm
  constructor
  · rintro ⟨row, allowed, within, index⟩
    exact ⟨_, ⟨row, ⟨allowed, (alive allowed).mp within⟩, rfl⟩, index⟩
  · rintro ⟨_, ⟨row, ⟨allowed, within⟩, rfl⟩, index⟩
    exact ⟨row, allowed, (alive allowed).mpr within, index⟩

theorem valuesOf_update (masks : Masks) (member : arc ∈ problem.arcs) :
    valuesOf problem (Function.update masks arc.name
        (masks arc.name &&& supportedMask problem masks arc)) =
      Function.update (valuesOf problem masks) arc.name (leftAt (valuesOf problem masks) arc) := by
  funext name
  by_cases here : name = arc.name
  · subst here
    rw [update_self, leftAt, valuesOf_eq_filter, valuesOf_eq_filter, List.filter_filter]
    refine List.filter_congr fun value inDomain => ?_
    rw [update_self, Nat.testBit_and, Bool.and_comm]
    congr 1
    rw [Bool.eq_iff_iff, testBit_supportedMask member, decide_eq_true_eq]
    constructor
    · rintro ⟨value', supported, same⟩
      have inDomain' : value' ∈ problem.domain arc.name := by
        obtain ⟨row, inRows, rfl⟩ := List.mem_map.mp supported
        exact mem_domain_of_row member (List.mem_filter.mp inRows).1
      rw [← (List.idxOf_inj inDomain').mp same]
      exact supported
    · intro supported
      exact ⟨value, supported, rfl⟩
  · rw [update_of_ne here, valuesOf_eq_filter, valuesOf_eq_filter,
      update_of_ne here]

theorem Fits.update (fits : Fits problem masks) (name : String) (mask : Nat) :
    Fits problem (Function.update masks name (masks name &&& mask)) := by
  intro other i set
  by_cases here : other = name
  · subst here
    rw [update_self, Nat.testBit_and, Bool.and_eq_true] at set
    exact fits _ i set.1
  · rw [update_of_ne here] at set
    exact fits other i set

theorem valuesOf_eq_nil (fits : Fits problem masks) :
    valuesOf problem masks name = [] ↔ masks name = 0 := by
  rw [valuesOf_eq_filter, List.filter_eq_nil_iff]
  constructor
  · intro none
    by_contra some_bit
    obtain ⟨i, set⟩ := Nat.exists_testBit_of_ne_zero some_bit
    have inRange := fits name i set
    refine none _ (List.getElem_mem inRange) ?_
    rwa [(problem.domain_nodup name).idxOf_getElem i inRange]
  · intro none value _
    simp [none]

variable {s s' : Revision} {maxRevisions : Nat}

theorem of_revise_some (revised : revise problem maxRevisions arc s = .ok (some s')) :
    let left := s.masks arc.name &&& supportedMask problem s.masks arc
    s' = ⟨Function.update s.masks arc.name left,
        s.revisions + bitCount (s.masks arc.name ^^^ left)⟩ ∧
      bitCount (s.masks arc.name ^^^ left) ≠ 0 ∧ left ≠ 0 := by
  unfold revise at revised
  simp only at revised
  split at revised
  · cases revised
  · rename_i busy
    split at revised
    · cases revised
    · split at revised
      · cases revised
      · rename_i some_left
        cases revised
        exact ⟨rfl, busy, some_left⟩

theorem of_revise_none (idle : revise problem maxRevisions arc s = .ok none) :
    s.masks arc.name &&& supportedMask problem s.masks arc = s.masks arc.name := by
  unfold revise at idle
  simp only at idle
  split at idle
  · rename_i none
    have same := bitCount_eq_zero.mp none
    rw [← Nat.zero_xor (s.masks arc.name &&& supportedMask problem s.masks arc), ← same,
      Nat.xor_assoc, Nat.xor_self, Nat.xor_zero]
  · split at idle
    · cases idle
    · split at idle
      · cases idle
      · cases idle

theorem of_revise_error {stop : HdcaStop}
    (stopped : revise problem maxRevisions arc s = .error stop) :
    let left := s.masks arc.name &&& supportedMask problem s.masks arc
    (stop = .budget s ∧ maxRevisions < s.revisions + bitCount (s.masks arc.name ^^^ left)) ∨
      ((∃ s', stop = .inconsistent s') ∧ left = 0) := by
  unfold revise at stopped
  simp only at stopped
  split at stopped
  · cases stopped
  · split at stopped
    · rename_i spent
      cases stopped
      exact .inl ⟨rfl, spent⟩
    · split at stopped
      · rename_i none_left
        cases stopped
        exact .inr ⟨⟨_, rfl⟩, none_left⟩
      · cases stopped

theorem prune_of_revise_none (member : arc ∈ problem.arcs)
    (idle : revise problem maxRevisions arc s = .ok none) (pruned : Nat) :
    prune arc ⟨valuesOf problem s.masks, pruned⟩ = .ok none := by
  rw [prune_eq_none]
  intro value inside
  have left := congrFun (valuesOf_update s.masks member) arc.name
  rw [of_revise_none idle, Function.update_eq_self, update_self] at left
  have inside' : value ∈ valuesOf problem s.masks arc.name := inside
  rw [left] at inside'
  exact of_decide_eq_true (List.mem_filter.mp inside').2

end

def maskSize (problem : HDEMProblem) (masks : Masks) : Nat :=
  (problem.names.map fun name => bitCount (masks name)).sum

private theorem sum_map_update {l : List String} (nodup : l.Nodup) {name : String}
    (member : name ∈ l) (f : String → Nat) (n : Nat) :
    (l.map (Function.update f name n)).sum + f name = (l.map f).sum + n := by
  induction l with
  | nil => cases member
  | cons first rest ih =>
    obtain ⟨apart, nodup⟩ := List.nodup_cons.mp nodup
    rw [List.map_cons, List.map_cons, List.sum_cons, List.sum_cons]
    rcases List.mem_cons.mp member with rfl | later
    · have unmoved : rest.map (Function.update f name n) = rest.map f := by
        refine List.map_congr_left fun other inRest => update_of_ne ?_ _ _
        rintro rfl
        exact apart inRest
      rw [unmoved, update_self]
      omega
    · have differs : first ≠ name := fun same => apart (same ▸ later)
      have onward := ih nodup later
      rw [update_of_ne differs]
      omega

/-- Masks that narrow the problem, keep every consistent family of domains, and account for every
value that is gone. -/
structure Tracks (problem : HDEMProblem) (s : Revision) : Prop where
  fits : Fits problem s.masks
  narrows : Narrows problem problem.domain (valuesOf problem s.masks)
  family : ∀ S, Consistent problem.network S →
    (∀ name, S name ⊆ problem.space problem.domain name) →
    ∀ name, S name ⊆ problem.space (valuesOf problem s.masks) name
  account : s.revisions + maskSize problem s.masks = size problem problem.domain

section

variable {problem : HDEMProblem} {s s' : Revision} {arc : Arc} {maxRevisions : Nat}

theorem maskSize_of_revise (member : arc ∈ problem.arcs)
    (revised : revise problem maxRevisions arc s = .ok (some s')) :
    s'.revisions + maskSize problem s'.masks = s.revisions + maskSize problem s.masks ∧
      maskSize problem s'.masks < maskSize problem s.masks := by
  obtain ⟨rfl, busy, -⟩ := of_revise_some revised
  have sum := bitCount_and_add (s.masks arc.name) (supportedMask problem s.masks arc)
  have moved := sum_map_update problem.names_nodup (mem_names_of_arc member)
    (fun name => bitCount (s.masks name))
    (bitCount (s.masks arc.name &&& supportedMask problem s.masks arc))
  have counts : (fun name => bitCount (Function.update s.masks arc.name
      (s.masks arc.name &&& supportedMask problem s.masks arc) name)) =
      Function.update (fun name => bitCount (s.masks name)) arc.name
        (bitCount (s.masks arc.name &&& supportedMask problem s.masks arc)) :=
    Function.comp_update bitCount s.masks arc.name _
  unfold maskSize
  simp only [counts]
  constructor
  · omega
  · omega

theorem Tracks.revise (tracks : Tracks problem s) (member : arc ∈ problem.arcs)
    (revised : revise problem maxRevisions arc s = .ok (some s')) : Tracks problem s' := by
  have account := (maskSize_of_revise member revised).1.trans tracks.account
  obtain ⟨rfl, -, some_left⟩ := of_revise_some revised
  have values := valuesOf_update s.masks member
  have fits := tracks.fits.update arc.name (supportedMask problem s.masks arc)
  have left : leftAt (valuesOf problem s.masks) arc ≠ [] := by
    have here := congrFun values arc.name
    rw [update_self] at here
    rw [← here, Ne, valuesOf_eq_nil fits, update_self]
    exact some_left
  refine ⟨fits, ?_, fun S consistent within name value inside => ?_, account⟩
  · rw [values]
    exact tracks.narrows.revise member left
  · have before := tracks.family S consistent within
    rw [values]
    intro known
    by_cases here : name = arc.name
    · subst here
      rw [update_self]
      exact mem_leftAt_of_consistent consistent before member inside
    · rw [update_of_ne here]
      exact before name inside known

theorem tracks_start :
    Tracks problem ⟨fun name => (1 <<< (problem.domain name).length) - 1, 0⟩ := by
  have bits (name : String) (i : Nat) :
      ((1 <<< (problem.domain name).length) - 1).testBit i =
        decide (i < (problem.domain name).length) := by
    rw [Nat.one_shiftLeft, Nat.testBit_two_pow_sub_one]
  have values : valuesOf problem (fun name => (1 <<< (problem.domain name).length) - 1) =
      problem.domain := by
    funext name
    rw [valuesOf_eq_filter, List.filter_eq_self]
    intro value member
    rw [bits, decide_eq_true_eq]
    exact List.idxOf_lt_length_iff.mpr member
  refine ⟨fun name i set => ?_, ?_, fun S _ within name => ?_, ?_⟩
  · rw [bits] at set
    exact of_decide_eq_true set
  · rw [values]
    exact .refl fun name known => problem.domain_ne_nil known
  · rw [values]
    exact within name
  · rw [Nat.zero_add, maskSize, size]
    refine congrArg List.sum (List.map_congr_left fun name _ => ?_)
    have small : (1 <<< (problem.domain name).length) - 1 < 2 ^ (problem.domain name).length := by
      rw [Nat.one_shiftLeft]
      exact Nat.sub_lt (Nat.two_pow_pos _) Nat.one_pos
    rw [bitCount_eq small, List.countP_eq_length.mpr, List.length_range]
    intro i member
    rw [bits, decide_eq_true_eq]
    exact List.mem_range.mp member

theorem consistent_of_revise_idle
    (idle : ∀ arc ∈ problem.arcs, Hdem.revise problem maxRevisions arc s = .ok none) :
    Consistent problem.network (problem.space (valuesOf problem s.masks)) := by
  have idle' : ∀ arc ∈ problem.arcs, prune arc ⟨valuesOf problem s.masks, 0⟩ = .ok none :=
    fun arc member => prune_of_revise_none member (idle arc member) 0
  exact consistent_of_idle idle'

theorem tracks_of_saturate (saturated : saturate (Hdem.revise problem maxRevisions) problem.arcs
      (size problem problem.domain + 1)
      ⟨fun name => (1 <<< (problem.domain name).length) - 1, 0⟩ = .ok s) :
    Tracks problem s ∧ Consistent problem.network (problem.space (valuesOf problem s.masks)) := by
  have start : Tracks problem ⟨fun name => (1 <<< (problem.domain name).length) - 1, 0⟩ :=
    tracks_start
  have enough : maskSize problem (fun name => (1 <<< (problem.domain name).length) - 1) <
      size problem problem.domain + 1 := by
    have account := start.account
    simp only at account
    omega
  have lowers : ∀ arc ∈ problem.arcs, ∀ s s' : Revision,
      Hdem.revise problem maxRevisions arc s = .ok (some s') →
        maskSize problem s'.masks < maskSize problem s.masks :=
    fun arc member s s' revised => (maskSize_of_revise member revised).2
  constructor
  · exact saturate_keeps (P := Tracks problem)
      (fun arc member s s' tracks revised => tracks.revise member revised) start saturated
  · exact consistent_of_revise_idle (saturated_of_measure
      (fun s => maskSize problem s.masks) lowers enough saturated)

theorem of_saturate_stop {stop : HdcaStop}
    (stopped : saturate (Hdem.revise problem maxRevisions) problem.arcs
      (size problem problem.domain + 1)
      ⟨fun name => (1 <<< (problem.domain name).length) - 1, 0⟩ = .error stop) :
    maxRevisions < size problem problem.domain ∨
      ∀ S, Consistent problem.network S → (∀ name, S name ⊆ problem.space problem.domain name) →
        ¬ ∀ name, (S name).Nonempty := by
  obtain ⟨arc, member, s, tracks, here⟩ := of_saturate_error (P := Tracks problem)
    (fun arc member s s' tracks revised => tracks.revise member revised) tracks_start stopped
  rcases of_revise_error here with ⟨-, spent⟩ | ⟨-, none_left⟩
  · left
    have sum := bitCount_and_add (s.masks arc.name) (supportedMask problem s.masks arc)
    have within : bitCount (s.masks arc.name) ≤ maskSize problem s.masks :=
      List.single_le_sum (fun _ _ => Nat.zero_le _) _
        (List.mem_map.mpr ⟨arc.name, mem_names_of_arc member, rfl⟩)
    have account := tracks.account
    omega
  · right
    intro S consistent within nonempty
    obtain ⟨value, inside⟩ := nonempty arc.name
    have left := mem_leftAt_of_consistent consistent (tracks.family S consistent within) member
      inside
    have values := congrFun (valuesOf_update s.masks member) arc.name
    have none : valuesOf problem (Function.update s.masks arc.name
        (s.masks arc.name &&& supportedMask problem s.masks arc)) arc.name = [] := by
      rw [valuesOf_eq_nil (tracks.fits.update _ _), update_self]
      exact none_left
    rw [none, update_self] at values
    rw [← values] at left
    cases left

end

/-- What the solver answers is what the possible worlds say: a value it resolves is the answer of
every one of them, and there is one; where it answers contested, every value left to an answer
variable is extended by one. -/
def HdcaSound (c : Crypto) (problem : HDEMProblem) (maxRevisions : Int) : Prop :=
  ∀ r, solveHdca c problem maxRevisions = .ok r →
    (∀ a, r.state = .resolved → r.answer = some a →
      (∃ w, problem.Possible w) ∧ ∀ w, problem.Possible w → w.answer = a) ∧
    (r.state = .contested → r.certifiedAcyclic = true → ∀ name ∈ problem.answerVariables,
      ∀ values, (name, values) ∈ r.domains → ∀ value ∈ values,
        ∃ a, problem.Assigns a ∧ problem.Satisfies a ∧ a name = value)

namespace HDEMProblem

variable (problem : HDEMProblem)

def Keeps (name value : String) : Prop :=
  Survives problem.network (problem.space problem.domain) name value

def KeepsJointly (name value : String) : Prop :=
  Survives (merged problem.network) (problem.space problem.domain) name value

end HDEMProblem

section

variable {c : Crypto} {problem : HDEMProblem} {maxRevisions : Int} {s : Revision} {r : HDCAResult}
  {name value : String}

theorem HDEMProblem.KeepsJointly.exists_assignment (forest : hdcaIsBinaryForest problem = true)
    (keeps : problem.KeepsJointly name value) :
    ∃ a, problem.Assigns a ∧ problem.Satisfies a ∧ a name = value := by
  obtain ⟨edges, net⟩ := forestNet_of_hdcaIsBinaryForest forest
  obtain ⟨a, within, solves, same⟩ := net.survives_merged_iff.mp keeps
  exact ⟨a, within, HDEMProblem.solves_network.mp solves, same⟩

theorem keepsJointly_of_satisfies {a : String → String} (assigns : problem.Assigns a)
    (satisfies : problem.Satisfies a) (name : String) : problem.KeepsJointly name (a name) := by
  have within : Within (problem.space problem.domain) a := assigns
  have solves := solves_merged.mpr (HDEMProblem.solves_network.mpr satisfies)
  exact survives_of_solves within solves name

theorem Tracks.keeps (tracks : Tracks problem s)
    (consistent : Consistent problem.network (problem.space (valuesOf problem s.masks)))
    (left : value ∈ valuesOf problem s.masks name) : problem.Keeps name value := by
  refine ⟨_, fun name value inside => ?_, HDEMProblem.nonempty_space tracks.narrows.nonempty,
    consistent, fun _ => left⟩
  exact fun known => (tracks.narrows.sublist name).subset (inside known)

theorem Tracks.answer_left (tracks : Tracks problem s) {a : String → String}
    (assigns : problem.Assigns a) (satisfies : problem.Satisfies a) :
    ∀ name ∈ problem.names, a name ∈ valuesOf problem s.masks name :=
  tracks.narrows.keeps a assigns satisfies

theorem of_solveHdca (forest : hdcaIsBinaryForest problem = true)
    (solved : solveHdca c problem maxRevisions = .ok r) :
    r.state = .abstain ∨ ∃ s, Tracks problem s ∧
      Consistent problem.network (problem.space (valuesOf problem s.masks)) ∧
      r = hdcaAnswer c problem s := by
  unfold solveHdca at solved
  simp only [bind_eq_ok, forest, Bool.true_eq_false, if_false] at solved
  obtain ⟨_, -, solved⟩ := solved
  split at solved
  · cases solved
    exact .inl rfl
  · cases solved
    exact .inl rfl
  · rename_i s saturated
    cases solved
    obtain ⟨tracks, consistent⟩ := tracks_of_saturate saturated
    exact .inr ⟨s, tracks, consistent, rfl⟩

theorem solveHdca_of_keeps (forest : hdcaIsBinaryForest problem = true)
    (keeps : problem.Keeps name value) : ∃ s, Tracks problem s ∧
      Consistent problem.network (problem.space (valuesOf problem s.masks)) ∧
      solveHdca c problem (size problem problem.domain + 1 : Nat) =
        .ok (hdcaAnswer c problem s) := by
  obtain ⟨S, within, nonempty, consistent, -⟩ := keeps
  have positive : (1 : Int) ≤ (size problem problem.domain + 1 : Nat) := by omega
  unfold solveHdca
  simp only [require_of positive, ok_bind, forest, Bool.true_eq_false, if_false, Int.toNat_natCast]
  split
  · rename_i stopped
    rcases of_saturate_stop stopped with spent | none
    · omega
    · exact absurd nonempty (none S consistent within)
  · rename_i stopped
    rcases of_saturate_stop stopped with spent | none
    · omega
    · exact absurd nonempty (none S consistent within)
  · rename_i s saturated
    obtain ⟨tracks, consistent⟩ := tracks_of_saturate saturated
    exact ⟨s, tracks, consistent, rfl⟩

theorem sound_of_extended (tracks : Tracks problem s)
    (extended : ∀ name ∈ problem.answerVariables, ∀ value ∈ valuesOf problem s.masks name,
      ∃ a, problem.Assigns a ∧ problem.Satisfies a ∧ a name = value) :
    (∀ a, (hdcaAnswer c problem s).state = .resolved → (hdcaAnswer c problem s).answer = some a →
      (∃ w, problem.Possible w) ∧ ∀ w, problem.Possible w → w.answer = a) ∧
    ((hdcaAnswer c problem s).state = .contested → ∀ name ∈ problem.answerVariables,
      ∀ values, (name, values) ∈ (hdcaAnswer c problem s).domains → ∀ value ∈ values,
        ∃ a, problem.Assigns a ∧ problem.Satisfies a ∧ a name = value) := by
  have known := problem.answers.2.2
  unfold hdcaAnswer
  simp only
  split
  · rename_i single
    refine ⟨fun a _ answered => ?_, fun state => (by cases state)⟩
    cases answered
    obtain ⟨name, member⟩ := List.exists_mem_of_ne_nil _ problem.answers.1
    obtain ⟨value, left⟩ :=
      List.exists_mem_of_ne_nil _ (tracks.narrows.nonempty name (known name member))
    obtain ⟨a, assigns, satisfies, -⟩ := extended name member value left
    refine ⟨⟨_, a, assigns, satisfies, rfl⟩, ?_⟩
    rintro _ ⟨b, assigns', satisfies', rfl⟩
    rw [List.map_map]
    refine List.map_congr_left fun name member => ?_
    have one := single _ (List.mem_map_of_mem member)
    obtain ⟨only, alone⟩ := List.length_eq_one_iff.mp one
    have inside := tracks.answer_left assigns' satisfies' name (known name member)
    rw [alone] at inside
    rw [Function.comp_apply, alone, List.mem_singleton.mp inside]
    rfl
  · refine ⟨fun a state => (by cases state), fun _ name member values listed value inside => ?_⟩
    obtain ⟨other, -, same⟩ := List.mem_map.mp listed
    cases same
    exact extended _ member value inside

theorem extended_of_sound (tracks : Tracks problem s)
    (sound : (∀ a, (hdcaAnswer c problem s).state = .resolved →
        (hdcaAnswer c problem s).answer = some a →
        (∃ w, problem.Possible w) ∧ ∀ w, problem.Possible w → w.answer = a) ∧
      ((hdcaAnswer c problem s).state = .contested →
        (hdcaAnswer c problem s).certifiedAcyclic = true → ∀ name ∈ problem.answerVariables,
        ∀ values, (name, values) ∈ (hdcaAnswer c problem s).domains → ∀ value ∈ values,
          ∃ a, problem.Assigns a ∧ problem.Satisfies a ∧ a name = value))
    (member : name ∈ problem.answerVariables) (left : value ∈ valuesOf problem s.masks name) :
    ∃ a, problem.Assigns a ∧ problem.Satisfies a ∧ a name = value := by
  have known := problem.answers.2.2 name member
  unfold hdcaAnswer at sound
  simp only at sound
  split at sound
  · rename_i single
    obtain ⟨⟨_, a, assigns, satisfies, -⟩, -⟩ := sound.1 _ rfl rfl
    refine ⟨a, assigns, satisfies, ?_⟩
    obtain ⟨only, alone⟩ := List.length_eq_one_iff.mp (single _ (List.mem_map_of_mem member))
    have inside := tracks.answer_left assigns satisfies name known
    rw [alone] at inside left
    rw [List.mem_singleton.mp inside, List.mem_singleton.mp left]
  · exact sound.2 rfl rfl name member _ (List.mem_map.mpr ⟨name, known, rfl⟩) value left

end

def agree : HDEMConstraint where
  constraintId := "agree"
  vars := ["x", "y"]
  allowed := [["0", "0"], ["1", "1"]]
  witnessFactIds := []
  named := by decide
  relation := by decide
  witnesses := unwitnessed

def clash : HDEMProblem where
  vars := [bit "x" x_named, bit "y" y_named,
    ⟨"z", [⟨"a", [], by decide⟩], by simp, by simp, by show Canonical ["a"]; decide⟩]
  constraints := [agree, differ]
  answerVariables := ["z"]
  named := ⟨by simp, by show Canonical ["x", "y", "z"]; decide⟩
  identified := by show Canonical ["agree", "differ"]; decide
  answers := by decide
  known := by decide
  inside := by decide

end ProofRay.Hdem
