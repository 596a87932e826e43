/- The test for a binary forest, by classes of names with halved paths: the pairs of a problem that
   passes are the edges of a forest. -/

import ProofRay.Hdem.Problem

namespace ProofRay.Hdem

open Lib.ConstraintNet
open Function (update_of_ne update_self)

/-- `root`: the name at the top of a path, which is halved on the way. -/
def findRoot : Nat → (String → String) → String → String × (String → String)
  | 0, parent, value => (value, parent)
  | fuel + 1, parent, value =>
    if parent value = value then (value, parent)
    else
      let halved := Function.update parent value (parent (parent value))
      findRoot fuel halved (halved value)

/-- What the loop over the constraints carries. -/
structure ForestScan where
  parent : String → String
  seenEdges : List (String × String)

def scanConstraint (fuel : Nat) (s : ForestScan) (k : HDEMConstraint) : Option ForestScan :=
  match k.vars with
  | [left, right] =>
    if (left, right) ∈ s.seenEdges ∨ (right, left) ∈ s.seenEdges then some s
    else
      let (a, parent) := findRoot fuel s.parent left
      let (b, parent) := findRoot fuel parent right
      if a = b then none
      else some ⟨Function.update parent a b, (left, right) :: s.seenEdges⟩
  | _ => if k.vars.length > 2 then none else some s

/-- `_hdca_is_binary_forest`. -/
def hdcaIsBinaryForest (problem : HDEMProblem) : Bool :=
  (problem.constraints.foldlM (scanConstraint problem.constraints.length) ⟨id, []⟩).isSome

/-- Paths of bounded length that lead every name to the root of its class. -/
structure Rooted (parent root : String → String) (depth : String → Nat) (bound : Nat) : Prop where
  link : ∀ v, root (parent v) = root v
  top : ∀ v, parent v = v → root v = v
  shallow : ∀ v, parent v = v → depth v = 0
  descends : ∀ v, parent v ≠ v → depth (parent v) < depth v
  bounded : ∀ v, depth v ≤ bound

section

variable {parent root : String → String} {depth : String → Nat} {bound : Nat}

theorem Rooted.depth_parent_le (rooted : Rooted parent root depth bound) (v : String) :
    depth (parent v) ≤ depth v := by
  by_cases here : parent v = v
  · rw [here]
  · exact (rooted.descends v here).le

variable {v : String}

theorem Rooted.halve (rooted : Rooted parent root depth bound) (below : parent v ≠ v) :
    Rooted (Function.update parent v (parent (parent v))) root depth bound := by
  have less := rooted.descends v below
  have again := rooted.depth_parent_le (parent v)
  have apart : parent (parent v) ≠ v := by
    intro same
    rw [same] at again
    omega
  constructor
  case link =>
    intro u
    by_cases here : u = v
    · subst here
      rw [update_self, rooted.link, rooted.link]
    · rw [update_of_ne here, rooted.link]
  case top =>
    intro u fixed
    by_cases here : u = v
    · subst here
      rw [update_self] at fixed
      exact absurd fixed apart
    · rw [update_of_ne here] at fixed
      exact rooted.top u fixed
  case shallow =>
    intro u fixed
    by_cases here : u = v
    · subst here
      rw [update_self] at fixed
      exact absurd fixed apart
    · rw [update_of_ne here] at fixed
      exact rooted.shallow u fixed
  case descends =>
    intro u moves
    by_cases here : u = v
    · subst here
      rw [update_self]
      omega
    · rw [update_of_ne here] at moves ⊢
      exact rooted.descends u moves
  case bounded => exact rooted.bounded

theorem findRoot_spec (rooted : Rooted parent root depth bound) {fuel : Nat}
    (enough : depth v ≤ fuel) : (findRoot fuel parent v).1 = root v ∧
      Rooted (findRoot fuel parent v).2 root depth bound := by
  induction fuel generalizing parent v with
  | zero =>
    have fixed : parent v = v := by
      by_contra below
      have less := rooted.descends v below
      omega
    exact ⟨(rooted.top v fixed).symm, rooted⟩
  | succ fuel ih =>
    unfold findRoot
    split
    · rename_i fixed
      exact ⟨(rooted.top v fixed).symm, rooted⟩
    · rename_i below
      simp only [update_self]
      have less := rooted.descends v below
      have again := rooted.depth_parent_le (parent v)
      obtain ⟨found, kept⟩ := ih (rooted.halve below) (v := parent (parent v)) (by omega)
      refine ⟨?_, kept⟩
      rw [found, rooted.link, rooted.link]

theorem Rooted.parent_root (rooted : Rooted parent root depth bound) (v : String) :
    parent (root v) = root v := by
  have climbs : ∀ n v, depth v ≤ n → parent (root v) = root v := by
    intro n
    induction n with
    | zero =>
      intro v shallow
      have fixed : parent v = v := by
        by_contra below
        have less := rooted.descends v below
        omega
      rw [rooted.top v fixed]
      exact fixed
    | succ n ih =>
      intro v shallow
      by_cases fixed : parent v = v
      · rw [rooted.top v fixed]
        exact fixed
      · have less := rooted.descends v fixed
        rw [← rooted.link v]
        exact ih (parent v) (by omega)
  exact climbs (depth v) v (Nat.le_refl _)

theorem Rooted.root_root (rooted : Rooted parent root depth bound) (v : String) :
    root (root v) = root v :=
  rooted.top _ (rooted.parent_root v)

theorem Rooted.unite (rooted : Rooted parent root depth bound) {l r : String}
    (apart : root l ≠ root r) :
    Rooted (Function.update parent (root l) (root r))
      (fun v => if root v = root l then root r else root v)
      (fun v => if root v = root l then depth v + 1 else depth v) (bound + 1) := by
  have flat : depth (root r) = 0 := rooted.shallow _ (rooted.parent_root r)
  have other : ¬ root r = root l := fun same => apart same.symm
  constructor
  case link =>
    intro v
    by_cases here : v = root l
    · subst here
      simp only [update_self, rooted.root_root, if_neg other, if_true]
    · simp only [update_of_ne here, rooted.link]
  case top =>
    intro v fixed
    by_cases here : v = root l
    · subst here
      rw [update_self] at fixed
      exact absurd fixed.symm apart
    · rw [update_of_ne here] at fixed
      have own := rooted.top v fixed
      simp only [own, if_neg here]
  case shallow =>
    intro v fixed
    by_cases here : v = root l
    · subst here
      rw [update_self] at fixed
      exact absurd fixed.symm apart
    · rw [update_of_ne here] at fixed
      have own := rooted.top v fixed
      simp only [own, if_neg here, rooted.shallow v fixed]
  case descends =>
    intro v moves
    by_cases here : v = root l
    · subst here
      simp only [update_self, rooted.root_root, if_neg other, if_true, flat]
      omega
    · rw [update_of_ne here] at moves
      have less := rooted.descends v moves
      simp only [update_of_ne here, rooted.link]
      split
      · omega
      · exact less
  case bounded =>
    intro v
    have within := rooted.bounded v
    split
    · omega
    · omega

end

def Scanned (s : ForestScan) (bound : Nat) : Prop :=
  Forest s.seenEdges ∧ ∃ root depth, Rooted s.parent root depth bound ∧
    ∀ x y, root x = root y ↔ Connected s.seenEdges x y

section

variable {s s' : ForestScan} {bound fuel : Nat} {k : HDEMConstraint}

theorem connected_mono {edges edges' : List (String × String)} (more : edges ⊆ edges')
    {x y : String} (connected : Connected edges x y) : Connected edges' x y :=
  Relation.EqvGen.mono (fun _ _ member => more member) x y connected

private theorem united_iff_connected {root : String → String} {edges : List (String × String)}
    (classes : ∀ x y, root x = root y ↔ Connected edges x y) {l r : String} (x y : String) :
    ((if root x = root l then root r else root x) = if root y = root l then root r else root y) ↔
      Connected ((l, r) :: edges) x y := by
  have more : edges ⊆ (l, r) :: edges := List.subset_cons_self _ _
  have edge : Connected ((l, r) :: edges) l r := connected_of_mem List.mem_cons_self
  have up {x y : String} (same : root x = root y) : Connected ((l, r) :: edges) x y :=
    connected_mono more ((classes x y).mp same)
  constructor
  · intro same
    by_cases left : root x = root l
    · by_cases right : root y = root l
      · exact up (left.trans right.symm)
      · rw [if_pos left, if_neg right] at same
        exact (up left).trans (edge.trans (up same))
    · by_cases right : root y = root l
      · rw [if_neg left, if_pos right] at same
        exact (up same).trans (edge.symm.trans (up right).symm)
      · rw [if_neg left, if_neg right] at same
        exact up same
  · intro connected
    rcases connected_cons connected with same | ⟨first, second⟩ | ⟨first, second⟩
    · rw [(classes x y).mpr same]
    · rw [if_pos ((classes x l).mpr first), ← (classes r y).mpr second]
      split
      · rfl
      · rfl
    · rw [if_pos ((classes l y).mpr second).symm, (classes x r).mpr first]
      split
      · rfl
      · rfl

theorem of_scanConstraint (scanned : Scanned s bound) (enough : bound ≤ fuel)
    (passed : scanConstraint fuel s k = some s') :
    Scanned s' (bound + 1) ∧ s.seenEdges ⊆ s'.seenEdges ∧
      (∀ e ∈ s'.seenEdges, e ∈ s.seenEdges ∨ k.vars = [e.1, e.2]) ∧
      ((∃ x, k.vars = [x]) ∨ ∃ l r, k.vars = [l, r] ∧
        ((l, r) ∈ s'.seenEdges ∨ (r, l) ∈ s'.seenEdges)) := by
  obtain ⟨forest, root, depth, rooted, classes⟩ := scanned
  have later : Scanned s (bound + 1) := by
    refine ⟨forest, root, depth, { rooted with bounded := fun v => ?_ }, classes⟩
    exact Nat.le_succ_of_le (rooted.bounded v)
  unfold scanConstraint at passed
  split at passed
  · rename_i l r pair
    split at passed
    · rename_i seen
      cases passed
      exact ⟨later, List.Subset.refl _, fun e member => .inl member, .inr ⟨l, r, pair, seen⟩⟩
    · simp only at passed
      obtain ⟨foundL, rootedL⟩ :=
        findRoot_spec rooted (Nat.le_trans (rooted.bounded l) enough)
      obtain ⟨foundR, rootedR⟩ :=
        findRoot_spec rootedL (Nat.le_trans (rooted.bounded r) enough)
      rw [foundL, foundR] at passed
      split at passed
      · cases passed
      · rename_i apart
        cases passed
        refine ⟨⟨.cons (fun connected => apart ((classes l r).mpr connected)) forest, _, _,
          rootedR.unite apart, united_iff_connected classes⟩, List.subset_cons_self _ _, ?_,
          .inr ⟨l, r, pair, .inl List.mem_cons_self⟩⟩
        intro e member
        rcases List.mem_cons.mp member with rfl | before
        · exact .inr pair
        · exact .inl before
  · rename_i noPair
    split at passed
    · cases passed
    · rename_i short
      cases passed
      refine ⟨later, List.Subset.refl _, fun e member => .inl member, ?_⟩
      match shape : k.vars with
      | [] => exact absurd shape k.named.2.1
      | [x] => exact .inl ⟨x, rfl⟩
      | [l, r] => exact absurd shape (noPair l r)
      | _ :: _ :: _ :: _ =>
        rw [shape] at short
        simp at short

private theorem of_scan {ks : List HDEMConstraint} (scanned : Scanned s bound)
    (enough : bound + ks.length ≤ fuel) (passed : ks.foldlM (scanConstraint fuel) s = some s') :
    Forest s'.seenEdges ∧ s.seenEdges ⊆ s'.seenEdges ∧
      (∀ e ∈ s'.seenEdges, e ∈ s.seenEdges ∨ ∃ k ∈ ks, k.vars = [e.1, e.2]) ∧
      ∀ k ∈ ks, (∃ x, k.vars = [x]) ∨ ∃ l r, k.vars = [l, r] ∧
        ((l, r) ∈ s'.seenEdges ∨ (r, l) ∈ s'.seenEdges) := by
  induction ks generalizing s bound with
  | nil =>
    cases passed
    exact ⟨scanned.1, List.Subset.refl _, fun e member => .inl member, List.forall_mem_nil _⟩
  | cons k ks ih =>
    rw [List.foldlM_cons, Option.bind_eq_bind, Option.bind_eq_some_iff] at passed
    obtain ⟨next, first, rest⟩ := passed
    rw [List.length_cons] at enough
    obtain ⟨scanned', more, known, shape⟩ := of_scanConstraint scanned (by omega) first
    obtain ⟨forest, more', known', shapes⟩ := ih scanned' (by omega) rest
    refine ⟨forest, fun e member => more' (more member), fun e member => ?_, ?_⟩
    · rcases known' e member with before | ⟨k', inside, pair⟩
      · rcases known e before with earlier | pair
        · exact .inl earlier
        · exact .inr ⟨k, List.mem_cons_self, pair⟩
      · exact .inr ⟨k', List.mem_cons_of_mem _ inside, pair⟩
    · refine List.forall_mem_cons.mpr ⟨?_, shapes⟩
      refine shape.imp_right ?_
      rintro ⟨l, r, pair, seen⟩
      exact ⟨l, r, pair, seen.imp (fun member => more' member) fun member => more' member⟩

end

theorem forestNet_of_hdcaIsBinaryForest {problem : HDEMProblem}
    (passed : hdcaIsBinaryForest problem = true) : ∃ edges, ForestNet problem.network edges := by
  obtain ⟨s, scanned⟩ := Option.isSome_iff_exists.mp passed
  have start : Scanned ⟨id, []⟩ 0 := by
    refine ⟨.nil, id, fun _ => 0, ⟨fun _ => rfl, fun _ fixed => fixed, fun _ _ => rfl,
      fun v moves => absurd rfl moves, fun _ => Nat.le_refl _⟩, fun x y => ?_⟩
    constructor
    · rintro rfl
      exact .refl x
    · intro connected
      induction connected with
      | rel _ _ member => cases member
      | refl _ => rfl
      | symm _ _ _ ih => exact ih.symm
      | trans _ _ _ _ _ first second => exact first.trans second
  obtain ⟨forest, -, known, shapes⟩ := of_scan start (by omega) scanned
  refine ⟨s.seenEdges, forest, ?_, ?_⟩
  · rintro _ ⟨k, member, rfl⟩
    rcases shapes k member with ⟨x, one⟩ | ⟨l, r, pair, seen⟩
    · refine .inl ⟨x, ?_⟩
      ext name
      simp [HDEMConstraint.condition, one]
    · rcases seen with seen | seen
      · refine .inr ⟨(l, r), seen, ?_⟩
        ext name
        simp [HDEMConstraint.condition, pair]
      · refine .inr ⟨(r, l), seen, ?_⟩
        ext name
        simp [HDEMConstraint.condition, pair, or_comm]
  · intro e member
    rcases known e member with none | ⟨k, inProblem, pair⟩
    · cases none
    · refine ⟨k.condition, ⟨k, inProblem, rfl⟩, ?_⟩
      ext name
      simp [HDEMConstraint.condition, pair]

end ProofRay.Hdem
