/- Constraint networks: domains that are consistent with the constraints, and the networks of a
   forest, where that alone makes a solution. -/

import Mathlib.Data.Set.Insert
import Mathlib.Logic.Function.Basic
import Mathlib.Logic.Relation

namespace ProofRay.Lib.ConstraintNet

universe u v

variable {V : Type u} {A : Type v}

/-- A condition on assignments that only looks at the variables of its scope. -/
structure Constraint (V : Type u) (A : Type v) where
  scope : Set V
  holds : (V → A) → Prop
  locality : ∀ a b : V → A, (∀ x ∈ scope, a x = b x) → holds a → holds b

def Within (S : V → Set A) (a : V → A) : Prop := ∀ x, a x ∈ S x

def Solves (cs : Set (Constraint V A)) (a : V → A) : Prop := ∀ c ∈ cs, c.holds a

def Supported (c : Constraint V A) (S : V → Set A) (x : V) (w : A) : Prop :=
  ∃ a, c.holds a ∧ (∀ y ∈ c.scope, a y ∈ S y) ∧ a x = w

def Consistent (cs : Set (Constraint V A)) (S : V → Set A) : Prop :=
  ∀ c ∈ cs, ∀ x ∈ c.scope, ∀ w ∈ S x, Supported c S x w

def Survives (cs : Set (Constraint V A)) (D : V → Set A) (x : V) (w : A) : Prop :=
  ∃ S : V → Set A, (∀ y, S y ⊆ D y) ∧ (∀ y, (S y).Nonempty) ∧ Consistent cs S ∧ w ∈ S x

section

variable {cs : Set (Constraint V A)} {c : Constraint V A} {S D : V → Set A} {a : V → A} {x : V}
  {w : A}

theorem Supported.mono (smaller : ∀ y ∈ c.scope, S y ⊆ D y) (supported : Supported c S x w) :
    Supported c D x w := by
  obtain ⟨a, holds, inside, value⟩ := supported
  exact ⟨a, holds, fun y member => smaller y member (inside y member), value⟩

theorem supported_of_solves (within : ∀ y ∈ c.scope, a y ∈ S y) (holds : c.holds a) :
    Supported c S x (a x) :=
  ⟨a, holds, within, rfl⟩

theorem solves_of_singletons (consistent : Consistent cs S) (within : Within S a)
    (single : ∀ c ∈ cs, ∀ y ∈ c.scope, ∀ w ∈ S y, w = a y)
    (some_variable : ∀ c ∈ cs, c.scope.Nonempty) : Solves cs a := by
  intro c member
  obtain ⟨x, inScope⟩ := some_variable c member
  obtain ⟨b, holds, inside, -⟩ := consistent c member x inScope (a x) (within x)
  exact c.locality b a (fun y inScope => single c member y inScope _ (inside y inScope)) holds

theorem survives_of_solves (within : Within D a) (solves : Solves cs a) (x : V) :
    Survives cs D x (a x) := by
  refine ⟨fun y => {a y}, ?_, fun y => Set.singleton_nonempty _, ?_, rfl⟩
  · intro y w member
    rw [Set.mem_singleton_iff.mp member]
    exact within y
  · intro c member y _ w value
    rw [Set.mem_singleton_iff.mp value]
    exact supported_of_solves (fun z _ => rfl) (solves c member)

end

def joined (cs : Set (Constraint V A)) (c : Constraint V A) : Constraint V A where
  scope := c.scope
  holds a := c.holds a ∧ ∀ c' ∈ cs, c'.scope = c.scope → c'.holds a
  locality a b same holds := by
    refine ⟨c.locality a b same holds.1, fun c' member alike => ?_⟩
    exact c'.locality a b (fun x inside => same x (alike ▸ inside)) (holds.2 c' member alike)

def merged (cs : Set (Constraint V A)) : Set (Constraint V A) := joined cs '' cs

section

variable {cs : Set (Constraint V A)} {S D : V → Set A} {a : V → A} {x : V} {w : A}

theorem solves_merged : Solves (merged cs) a ↔ Solves cs a := by
  constructor
  · intro solves c member
    exact (solves _ (Set.mem_image_of_mem _ member)).1
  · rintro solves _ ⟨c, member, rfl⟩
    exact ⟨solves c member, fun c' member' _ => solves c' member'⟩

theorem consistent_of_merged (consistent : Consistent (merged cs) S) : Consistent cs S := by
  intro c member x inScope w value
  obtain ⟨a, holds, inside, same⟩ :=
    consistent _ (Set.mem_image_of_mem _ member) x inScope w value
  exact ⟨a, holds.1, inside, same⟩

end

def Connected (edges : List (V × V)) : V → V → Prop :=
  Relation.EqvGen fun x y => (x, y) ∈ edges

/-- Edges each of which joins what the ones after it in the list do not. -/
inductive Forest : List (V × V) → Prop where
  | nil : Forest []
  | cons {l r : V} {edges : List (V × V)} (apart : ¬ Connected edges l r) (rest : Forest edges) :
      Forest ((l, r) :: edges)

section

variable {edges : List (V × V)} {x y z : V}

theorem Connected.refl (x : V) : Connected edges x x := Relation.EqvGen.refl x

theorem Connected.symm (connected : Connected edges x y) : Connected edges y x :=
  Relation.EqvGen.symm x y connected

theorem Connected.trans (first : Connected edges x y) (second : Connected edges y z) :
    Connected edges x z :=
  Relation.EqvGen.trans x y z first second

theorem connected_of_mem (member : (x, y) ∈ edges) : Connected edges x y :=
  Relation.EqvGen.rel x y member

theorem connected_cons {l r : V} (connected : Connected ((l, r) :: edges) x y) :
    Connected edges x y ∨ (Connected edges x l ∧ Connected edges r y) ∨
      (Connected edges x r ∧ Connected edges l y) := by
  induction connected with
  | rel x y member =>
    rcases List.mem_cons.mp member with same | member
    · cases same
      exact .inr (.inl ⟨.refl _, .refl _⟩)
    · exact .inl (connected_of_mem member)
  | refl x => exact .inl (.refl x)
  | symm x y _ ih =>
    rcases ih with same | ⟨first, second⟩ | ⟨first, second⟩
    · exact .inl same.symm
    · exact .inr (.inr ⟨second.symm, first.symm⟩)
    · exact .inr (.inl ⟨second.symm, first.symm⟩)
  | trans x y z _ _ first second =>
    rcases first with same | ⟨a, b⟩ | ⟨a, b⟩
    · rcases second with same' | ⟨c, d⟩ | ⟨c, d⟩
      · exact .inl (same.trans same')
      · exact .inr (.inl ⟨same.trans c, d⟩)
      · exact .inr (.inr ⟨same.trans c, d⟩)
    · rcases second with same' | ⟨_, d⟩ | ⟨_, d⟩
      · exact .inr (.inl ⟨a, b.trans same'⟩)
      · exact .inr (.inl ⟨a, d⟩)
      · exact .inl (a.trans d)
    · rcases second with same' | ⟨_, d⟩ | ⟨_, d⟩
      · exact .inr (.inr ⟨a, b.trans same'⟩)
      · exact .inl (a.trans d)
      · exact .inr (.inr ⟨a, d⟩)

private theorem glue (R : V → V → A → A → Prop) (b : V → A) {a : V → A} {r : V}
    (fits : ∀ e ∈ edges, R e.1 e.2 (a e.1) (a e.2))
    (fits' : ∀ e ∈ edges, R e.1 e.2 (b e.1) (b e.2)) [DecidablePred fun y => Connected edges r y] :
    let g := fun y => if Connected edges r y then b y else a y
    ∀ e ∈ edges, R e.1 e.2 (g e.1) (g e.2) := by
  intro g e member
  have edge : Connected edges e.1 e.2 := connected_of_mem member
  by_cases there : Connected edges r e.1
  · have there' : Connected edges r e.2 := there.trans edge
    simp only [g, if_pos there, if_pos there']
    exact fits' e member
  · have away : ¬ Connected edges r e.2 := fun there' => there (there'.trans edge.symm)
    simp only [g, if_neg there, if_neg away]
    exact fits e member

/-- In a forest whose edges support every value of both their ends, every value of every variable
is part of an assignment that fits every edge. -/
theorem exists_of_forest (forest : Forest edges) {S : V → Set A} {R : V → V → A → A → Prop}
    (nonempty : ∀ y, (S y).Nonempty)
    (forward : ∀ e ∈ edges, ∀ w ∈ S e.1, ∃ w' ∈ S e.2, R e.1 e.2 w w')
    (backward : ∀ e ∈ edges, ∀ w' ∈ S e.2, ∃ w ∈ S e.1, R e.1 e.2 w w') {w : A} (value : w ∈ S x) :
    ∃ a, Within S a ∧ a x = w ∧ ∀ e ∈ edges, R e.1 e.2 (a e.1) (a e.2) := by
  classical
  induction forest generalizing x w with
  | nil =>
    choose pick picked using nonempty
    refine ⟨Function.update pick x w, fun y => ?_, Function.update_self .., List.forall_mem_nil _⟩
    by_cases same : y = x
    · subst same
      rw [Function.update_self]
      exact value
    · rw [Function.update_of_ne same]
      exact picked y
  | @cons l r edges apart rest ih =>
    have onward := fun {x : V} {w : A} (value : w ∈ S x) =>
      ih (fun e member => forward e (List.mem_cons_of_mem _ member))
        (fun e member => backward e (List.mem_cons_of_mem _ member)) value
    obtain ⟨a, within, atX, fits⟩ := onward value
    -- The side of `x` keeps its assignment, the other side takes one that the new edge supports.
    by_cases side : Connected edges r x
    · obtain ⟨w', inside, supported⟩ := backward (l, r) List.mem_cons_self (a r) (within r)
      obtain ⟨b, within', atL, fits'⟩ := onward inside
      have away : ¬ Connected edges l x := fun there => apart (there.trans side.symm)
      have awayR : ¬ Connected edges l r := apart
      refine ⟨fun y => if Connected edges l y then b y else a y, fun y => ?_, ?_, ?_⟩
      · dsimp only
        split
        · exact within' y
        · exact within y
      · simp only [if_neg away, atX]
      · refine List.forall_mem_cons.mpr ⟨?_, glue R b fits fits'⟩
        simp only [if_pos (Connected.refl l), if_neg awayR, atL]
        exact supported
    · obtain ⟨w', inside, supported⟩ := forward (l, r) List.mem_cons_self (a l) (within l)
      obtain ⟨b, within', atR, fits'⟩ := onward inside
      have awayL : ¬ Connected edges r l := fun there => apart there.symm
      refine ⟨fun y => if Connected edges r y then b y else a y, fun y => ?_, ?_, ?_⟩
      · dsimp only
        split
        · exact within' y
        · exact within y
      · simp only [if_neg side, atX]
      · refine List.forall_mem_cons.mpr ⟨?_, glue R b fits fits'⟩
        simp only [if_pos (Connected.refl r), if_neg awayL, atR]
        exact supported

end

/-- A network of unary and binary constraints whose pairs are the edges of a forest. -/
structure ForestNet (cs : Set (Constraint V A)) (edges : List (V × V)) : Prop where
  forest : Forest edges
  scopes : ∀ c ∈ cs, (∃ x, c.scope = {x}) ∨ ∃ e ∈ edges, c.scope = {e.1, e.2}
  used : ∀ e ∈ edges, ∃ c ∈ cs, c.scope = {e.1, e.2}

section

variable {cs : Set (Constraint V A)} {edges : List (V × V)} {S D : V → Set A} {x : V} {w : A}

/-- In a forest, domains that are consistent with the constraints of each pair taken together, and
leave every variable something, have no value that is not part of a solution. -/
theorem ForestNet.exists_solution (net : ForestNet cs edges) (nonempty : ∀ y, (S y).Nonempty)
    (consistent : Consistent (merged cs) S) (value : w ∈ S x) :
    ∃ a, Within S a ∧ Solves cs a ∧ a x = w := by
  classical
  -- The pair of values of an edge is one that all constraints on it allow.
  let R : V → V → A → A → Prop := fun l r u v =>
    ∀ c ∈ cs, c.scope = {l, r} → ∃ a, c.holds a ∧ a l = u ∧ a r = v
  have support : ∀ e ∈ edges, ∀ x ∈ ({e.1, e.2} : Set V), ∀ w ∈ S x,
      ∃ a : V → A, a x = w ∧ a e.1 ∈ S e.1 ∧ a e.2 ∈ S e.2 ∧ R e.1 e.2 (a e.1) (a e.2) := by
    intro e member x inside w value
    obtain ⟨c, known, scope⟩ := net.used e member
    obtain ⟨a, holds, within, same⟩ :=
      consistent _ (Set.mem_image_of_mem _ known) x (scope ▸ inside) w value
    have inScope : ∀ y ∈ ({e.1, e.2} : Set V), a y ∈ S y := fun y here => within y (scope ▸ here)
    refine ⟨a, same, inScope _ (by simp), inScope _ (by simp), fun c' known' scope' => ?_⟩
    exact ⟨a, holds.2 c' known' (scope'.trans scope.symm), rfl, rfl⟩
  have forward : ∀ e ∈ edges, ∀ w ∈ S e.1, ∃ w' ∈ S e.2, R e.1 e.2 w w' := by
    intro e member w value
    obtain ⟨a, rfl, -, inside, allowed⟩ := support e member e.1 (by simp) w value
    exact ⟨a e.2, inside, allowed⟩
  have backward : ∀ e ∈ edges, ∀ w' ∈ S e.2, ∃ w ∈ S e.1, R e.1 e.2 w w' := by
    intro e member w' value
    obtain ⟨a, rfl, inside, -, allowed⟩ := support e member e.2 (by simp) w' value
    exact ⟨a e.1, inside, allowed⟩
  obtain ⟨a, within, same, fits⟩ :=
    exists_of_forest net.forest nonempty forward backward value
  refine ⟨a, within, fun c member => ?_, same⟩
  rcases net.scopes c member with ⟨y, scope⟩ | ⟨e, inEdges, scope⟩
  · obtain ⟨b, holds, -, there⟩ := consistent_of_merged consistent c member y (by simp [scope])
      (a y) (within y)
    refine c.locality b a (fun z inside => ?_) holds
    rw [scope, Set.mem_singleton_iff] at inside
    rw [inside, there]
  · obtain ⟨b, holds, left, right⟩ := fits e inEdges c member scope
    refine c.locality b a (fun z inside => ?_) holds
    rw [scope] at inside
    rcases inside with rfl | rfl
    · exact left
    · exact right

theorem ForestNet.survives_merged_iff (net : ForestNet cs edges) :
    Survives (merged cs) D x w ↔ ∃ a, Within D a ∧ Solves cs a ∧ a x = w := by
  constructor
  · rintro ⟨S, smaller, nonempty, consistent, value⟩
    obtain ⟨a, within, solves, same⟩ := net.exists_solution nonempty consistent value
    exact ⟨a, fun y => smaller y (within y), solves, same⟩
  · rintro ⟨a, within, solves, rfl⟩
    exact survives_of_solves within (solves_merged.mpr solves) x

end

end ProofRay.Lib.ConstraintNet
