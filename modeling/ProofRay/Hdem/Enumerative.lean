/- The enumerative solver: every assignment of the product of the domains in turn, up to a
   budget. -/

import ProofRay.Hdem.Problem

namespace ProofRay.Hdem

open Engine (Crypto PyError)
open Lib.Guard

/-- Worlds as sorted by `sorted(worlds)`. -/
def sortedWorlds (worlds : List HDEMWorld) : List HDEMWorld :=
  worlds.insertionSort fun a b => a.key ≤ b.key

/-- `itertools.product`. -/
def product : List (List String) → List (List String)
  | [] => [[]]
  | domain :: rest => domain.flatMap fun value => (product rest).map (value :: ·)

/-- What the loop over the assignments carries. -/
structure Enumeration where
  worlds : List HDEMWorld
  explored : Nat

def enumerateStep (problem : HDEMProblem) (maxAssignments : Nat) (s : Enumeration)
    (values : List String) : Except Enumeration Enumeration :=
  let explored := s.explored + 1
  if explored > maxAssignments then .error s
  else
    let assignment := zipped problem.names values
    if problem.Satisfies assignment then
      .ok ⟨s.worlds ++ [hdemWorld problem assignment], explored⟩
    else .ok ⟨s.worlds, explored⟩

/-- `solve_hdem_enumerative`. -/
def solveHdemEnumerative (c : Crypto) (problem : HDEMProblem) (maxAssignments : Int) :
    Except PyError HDEMResult := do
  require (1 ≤ maxAssignments) (PyError.valueError "max_assignments must be positive")
  let domains := problem.names.map problem.domain
  match (product domains).foldlM (enumerateStep problem maxAssignments.toNat) ⟨[], 0⟩ with
  | .error s =>
    return hdemResult c problem s.worlds false s.explored 0
      "enumerative assignment budget exhausted"
  | .ok s =>
    return hdemResult c problem (sortedWorlds s.worlds) true s.explored 0
      "complete explicit possible-world enumeration"

section

variable {names values : List String}

variable {domains : List (List String)}

theorem mem_product :
    values ∈ product domains ↔
      List.Forall₂ (fun value domain => value ∈ domain) values domains := by
  induction domains generalizing values with
  | nil => simp [product]
  | cons domain rest ih =>
    simp only [product, List.mem_flatMap, List.mem_map]
    constructor
    · rintro ⟨value, inside, later, member, rfl⟩
      exact .cons inside (ih.mp member)
    · intro each
      cases each with
      | cons inside later => exact ⟨_, inside, _, ih.mpr later, rfl⟩

theorem product_nodup (nodup : ∀ d ∈ domains, d.Nodup) : (product domains).Nodup := by
  induction domains with
  | nil => exact List.nodup_singleton _
  | cons domain rest ih =>
    obtain ⟨first, later⟩ := List.forall_mem_cons.mp nodup
    refine List.nodup_flatMap.mpr ⟨fun value _ => ?_, ?_⟩
    · exact (ih later).map (List.cons_injective)
    · refine first.imp fun {a b} differs => ?_
      intro row inLeft inRight
      obtain ⟨_, _, rfl⟩ := List.mem_map.mp inLeft
      obtain ⟨_, _, same⟩ := List.mem_map.mp inRight
      exact differs (List.cons.inj same).1.symm

theorem zipped_of_mem_product {f : String → List String} (nodup : names.Nodup)
    (member : values ∈ product (names.map f)) :
    (∀ name ∈ names, zipped names values name ∈ f name) ∧
      names.map (zipped names values) = values := by
  rw [mem_product] at member
  have length : values.length = names.length := by
    rw [member.length_eq, List.length_map]
  refine ⟨fun name known => ?_, map_zipped nodup length⟩
  have again : names.map (zipped names values) = values := map_zipped nodup length
  rw [← again, List.forall₂_map_left_iff, List.forall₂_map_right_iff, List.forall₂_same] at member
  exact member name known

end

section

variable {problem : HDEMProblem}

private theorem of_enumerate {maxAssignments : Nat} {rows : List (List String)}
    {s last : Enumeration}
    (finished : rows.foldlM (enumerateStep problem maxAssignments) s = .ok last) :
    last.worlds = s.worlds ++
      (rows.filter fun values => problem.Satisfies (zipped problem.names values)).map
        fun values => hdemWorld problem (zipped problem.names values) := by
  induction rows generalizing s with
  | nil =>
    cases finished
    simp
  | cons values rows ih =>
    rw [List.foldlM_cons, bind_eq_ok] at finished
    obtain ⟨next, stepped, rest⟩ := finished
    rw [ih rest]
    unfold enumerateStep at stepped
    simp only at stepped
    split at stepped
    · cases stepped
    · split at stepped
      · rename_i satisfied
        cases stepped
        simp [satisfied]
      · rename_i violated
        cases stepped
        simp [violated]

variable {worlds : List HDEMWorld}

theorem pairwise_sortedWorlds (nodup : worlds.Nodup) :
    (sortedWorlds worlds).Pairwise fun a b => a.key < b.key := by
  have rising : (sortedWorlds worlds).Pairwise fun a b => a.key ≤ b.key :=
    List.pairwise_insertionSort _ _
  have distinct : (sortedWorlds worlds).Nodup :=
    (List.perm_insertionSort _ _).nodup_iff.mpr nodup
  refine (rising.and distinct).imp fun h => ?_
  exact lt_of_le_of_ne h.1 fun same => h.2 (HDEMWorld.key_injective same)

theorem mem_sortedWorlds {w : HDEMWorld} :
    w ∈ sortedWorlds worlds ↔ w ∈ worlds := List.mem_insertionSort _

theorem enumerative_worlds {c : Crypto} {maxAssignments : Int} {r : HDEMResult}
    (solved : solveHdemEnumerative c problem maxAssignments = .ok r)
    (complete : r.complete = true) :
    (∃ explored pruned reason, r = hdemResult c problem r.worlds true explored pruned reason) ∧
      (r.worlds.Pairwise fun a b => a.key < b.key) ∧ ∀ w, w ∈ r.worlds ↔ problem.Possible w := by
  unfold solveHdemEnumerative at solved
  simp only [bind_eq_ok] at solved
  obtain ⟨_, -, solved⟩ := solved
  split at solved
  · cases solved
    cases complete
  · rename_i s finished
    cases solved
    have worlds := of_enumerate finished
    simp only [List.nil_append] at worlds
    have nodup : s.worlds.Nodup := by
      rw [worlds]
      have tuples : (product (problem.names.map problem.domain)).Nodup := by
        refine product_nodup fun d member => ?_
        obtain ⟨name, -, rfl⟩ := List.mem_map.mp member
        exact problem.domain_nodup name
      refine List.Nodup.map_on ?_ (tuples.filter _)
      intro left inLeft right inRight same
      have left' := (zipped_of_mem_product problem.names_nodup (List.mem_filter.mp inLeft).1).2
      have right' := (zipped_of_mem_product problem.names_nodup (List.mem_filter.mp inRight).1).2
      rw [← left', ← right']
      exact List.map_congr_left (assignment_of_hdemWorld same)
    refine ⟨⟨_, _, _, rfl⟩, pairwise_sortedWorlds nodup, fun w => ?_⟩
    show w ∈ sortedWorlds s.worlds ↔ _
    rw [mem_sortedWorlds, worlds, List.mem_map]
    constructor
    · rintro ⟨values, member, rfl⟩
      obtain ⟨inProduct, satisfied⟩ := List.mem_filter.mp member
      exact ⟨_, (zipped_of_mem_product problem.names_nodup inProduct).1,
        of_decide_eq_true satisfied, rfl⟩
    · rintro ⟨a, assigns, satisfies, rfl⟩
      have same : ∀ name ∈ problem.names,
          zipped problem.names (problem.names.map a) name = a name :=
        zipped_map problem.names_nodup
      refine ⟨problem.names.map a, List.mem_filter.mpr ⟨?_, decide_eq_true fun k member => ?_⟩, ?_⟩
      · rw [mem_product, List.forall₂_map_left_iff, List.forall₂_map_right_iff, List.forall₂_same]
        exact assigns
      · have row : HDEMProblem.rowOf k (zipped problem.names (problem.names.map a)) =
            HDEMProblem.rowOf k a :=
          List.map_congr_left fun name inScope =>
            same name (HDEMProblem.mem_names_of_scope member inScope)
        rw [row]
        exact satisfies k member
      · exact hdemWorld_congr same

end

end ProofRay.Hdem
