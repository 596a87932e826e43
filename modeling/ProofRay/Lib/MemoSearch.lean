/- Depth-first search with a memo table and a budget of visited nodes: what its answers say, when
   nodes with one key have the same futures. -/

import ProofRay.Lib.Guard

namespace ProofRay.Lib.MemoSearch

open Lib.Guard

universe u

/-- A search space: where to stop, the memo key of a node, and the child of a node under a
branch, if it has one.  Computing a key or a child may fail. -/
structure Space (ν κ β τ ε : Type u) where
  goal : ν → Bool
  key : ν → Except ε κ
  branches : List β
  child : ν → β → Except ε (Option ν)
  note : ν → τ → τ

/-- What the search carries along: the keys given up, the nodes expanded, whether the
budget stopped it, and the caller's own notes. -/
structure Trail (κ τ : Type u) where
  memo : List κ
  explored : Nat
  exhausted : Bool
  notes : τ

section

variable {ν κ β τ ε : Type u}

def tryBranches (p : Space ν κ β τ ε) (visit : ν → Trail κ τ → Except ε (Bool × Trail κ τ))
    (x : ν) : List β → Trail κ τ → Except ε (Bool × Trail κ τ)
  | [], t => .ok (false, t)
  | b :: bs, t => do
    match ← p.child x b with
    | none => tryBranches p visit x bs t
    | some y => do
      match ← visit y t with
      | (true, t) => return (true, t)
      | (false, t) => tryBranches p visit x bs t

/-- The search from a node, at most `fuel` nodes deep. -/
def visit [DecidableEq κ] (p : Space ν κ β τ ε) (budget : Int) : Nat → ν → Trail κ τ →
    Except ε (Bool × Trail κ τ)
  | 0, _, t => .ok (false, t)
  | fuel + 1, x, t =>
    if p.goal x then .ok (true, t)
    else if budget ≤ t.explored then .ok (false, { t with exhausted := true })
    else do
      let k ← p.key x
      if k ∈ t.memo then return (false, t)
      else do
        match ← tryBranches p (visit p budget fuel) x p.branches
            { t with explored := t.explored + 1, notes := p.note x t.notes } with
        | (true, t) => return (true, t)
        | (false, t) => return (false, { t with memo := k :: t.memo })

/-- A goal can be reached from the node. -/
inductive Reaches (p : Space ν κ β τ ε) : ν → Prop where
  | goal {x : ν} (h : p.goal x = true) : Reaches p x
  | step {x y : ν} {b : β} (member : b ∈ p.branches) (child : p.child x b = .ok (some y))
      (rest : Reaches p y) : Reaches p x

def KeyDecides (p : Space ν κ β τ ε) : Prop :=
  ∀ x y k, p.key x = .ok k → p.key y = .ok k → Reaches p x → Reaches p y

/-- A relation that nodes with one key stand in and that children inherit. -/
structure Bisimulation (p : Space ν κ β τ ε) (r : ν → ν → Prop) : Prop where
  of_key : ∀ x y k, p.key x = .ok k → p.key y = .ok k → r x y
  goal : ∀ x y, r x y → p.goal x = true → p.goal y = true
  child : ∀ x y b x', r x y → p.child x b = .ok (some x') →
    ∃ y', p.child y b = .ok (some y') ∧ r x' y'

variable {p : Space ν κ β τ ε} {x : ν}

variable {r : ν → ν → Prop} {t t' : Trail κ τ} {found : Bool}

theorem Bisimulation.reaches (sim : Bisimulation p r) (h : Reaches p x) :
    ∀ y, r x y → Reaches p y := by
  induction h with
  | goal found =>
    intro y related
    exact .goal (sim.goal _ y related found)
  | step member child rest ih =>
    intro y related
    obtain ⟨y', child', related'⟩ := sim.child _ y _ _ related child
    exact .step member child' (ih y' related')

theorem Bisimulation.keyDecides (sim : Bisimulation p r) : KeyDecides p := by
  intro x y k keyX keyY reached
  exact sim.reaches reached y (sim.of_key x y k keyX keyY)

def DeadMemo (p : Space ν κ β τ ε) (t : Trail κ τ) : Prop :=
  ∀ k ∈ t.memo, ∀ x, p.key x = .ok k → ¬ Reaches p x

/-- What a search that ends with `found` owes its caller: a positive answer is a path; a
negative one, unless the budget ran out, is that there is none, and the memo stays dead. -/
structure Answers (p : Space ν κ β τ ε) (t : Trail κ τ) (dead reached : Prop) (found : Bool)
    (t' : Trail κ τ) : Prop where
  sound : found = true → reached
  budget : t'.exhausted = false → t.exhausted = false
  complete : found = false → t'.exhausted = false → DeadMemo p t → dead ∧ DeadMemo p t'

private theorem answers_tryBranches {p : Space ν κ β τ ε}
    {search : ν → Trail κ τ → Except ε (Bool × Trail κ τ)} {x : ν} {bs : List β}
    (deeper : ∀ b ∈ bs, ∀ y, p.child x b = .ok (some y) → ∀ t found t',
      search y t = .ok (found, t') → Answers p t (¬ Reaches p y) (Reaches p y) found t')
    {t t' : Trail κ τ} {found : Bool} (h : tryBranches p search x bs t = .ok (found, t')) :
    Answers p t (∀ b ∈ bs, ∀ y, p.child x b = .ok (some y) → ¬ Reaches p y)
      (∃ b ∈ bs, ∃ y, p.child x b = .ok (some y) ∧ Reaches p y) found t' := by
  induction bs generalizing t with
  | nil =>
    cases h
    exact ⟨by simp, id, fun _ _ memo => ⟨by simp, memo⟩⟩
  | cons b bs ih =>
    have deeper' := fun b' member => deeper b' (List.mem_cons_of_mem b member)
    simp only [tryBranches, bind_eq_ok] at h
    obtain ⟨child, found_child, h⟩ := h
    cases child with
    | none =>
      have rest := ih deeper' h
      refine ⟨?_, rest.budget, ?_⟩
      · intro positive
        obtain ⟨b', member, reached⟩ := rest.sound positive
        exact ⟨b', List.mem_cons_of_mem b member, reached⟩
      · intro negative within memo
        obtain ⟨dead, memo'⟩ := rest.complete negative within memo
        refine ⟨?_, memo'⟩
        intro b' member y child'
        rcases List.mem_cons.mp member with rfl | member
        · rw [found_child] at child'
          cases child'
        · exact dead b' member y child'
    | some y =>
      simp only [bind_eq_ok] at h
      obtain ⟨⟨hit, t₁⟩, visited, h⟩ := h
      have first := deeper b (by simp) y found_child t hit t₁ visited
      cases hit with
      | true =>
        simp only [pure_eq_ok, Prod.mk.injEq] at h
        obtain ⟨rfl, rfl⟩ := h
        exact ⟨fun _ => ⟨b, by simp, y, found_child, first.sound rfl⟩, first.budget,
          fun negative => (by cases negative)⟩
      | false =>
        have rest := ih deeper' h
        refine ⟨?_, fun within => first.budget (rest.budget within), ?_⟩
        · intro positive
          obtain ⟨b', member, reached⟩ := rest.sound positive
          exact ⟨b', List.mem_cons_of_mem b member, reached⟩
        · intro negative within memo
          obtain ⟨deadFirst, memo₁⟩ := first.complete rfl (rest.budget within) memo
          obtain ⟨dead, memo'⟩ := rest.complete negative within memo₁
          refine ⟨?_, memo'⟩
          intro b' member y' child'
          rcases List.mem_cons.mp member with rfl | member
          · rw [found_child] at child'
            cases child'
            exact deadFirst
          · exact dead b' member y' child'

theorem answers_visit [DecidableEq κ] (decides : KeyDecides p) (budget : Int) (rank : ν → Nat)
    (descends : ∀ x b y, b ∈ p.branches → p.child x b = .ok (some y) → rank y < rank x) {fuel : Nat}
    (enough : rank x < fuel) (h : visit p budget fuel x t = .ok (found, t')) :
    Answers p t (¬ Reaches p x) (Reaches p x) found t' := by
  induction fuel generalizing x t t' found with
  | zero => omega
  | succ fuel ih =>
    rw [visit] at h
    split at h
    · rename_i goal
      cases h
      exact ⟨fun _ => .goal goal, id, fun negative => (by cases negative)⟩
    · rename_i noGoal
      split at h
      · cases h
        exact ⟨fun positive => (by cases positive), fun within => (by cases within),
          fun _ within => (by cases within)⟩
      · simp only [bind_eq_ok] at h
        obtain ⟨k, key, h⟩ := h
        split at h
        · rename_i known
          simp only [pure_eq_ok, Prod.mk.injEq] at h
          obtain ⟨rfl, rfl⟩ := h
          refine ⟨fun positive => (by cases positive), id, ?_⟩
          intro _ _ memo
          exact ⟨memo k known x key, memo⟩
        · simp only [bind_eq_ok] at h
          obtain ⟨⟨hit, t₁⟩, tried, h⟩ := h
          have inner := answers_tryBranches (fun b member y child t found t' visited =>
            ih (by have := descends x b y member child; omega) visited) tried
          cases hit with
          | true =>
            simp only [pure_eq_ok, Prod.mk.injEq] at h
            obtain ⟨rfl, rfl⟩ := h
            obtain ⟨b, member, y, child, reached⟩ := inner.sound rfl
            exact ⟨fun _ => .step member child reached, inner.budget,
              fun negative => (by cases negative)⟩
          | false =>
            simp only [pure_eq_ok, Prod.mk.injEq] at h
            obtain ⟨rfl, rfl⟩ := h
            refine ⟨fun positive => (by cases positive), inner.budget, ?_⟩
            intro _ within memo
            obtain ⟨dead, memo₁⟩ := inner.complete rfl within memo
            have unreachable : ¬ Reaches p x := by
              intro reached
              cases reached with
              | goal goal => exact noGoal goal
              | step member child rest => exact dead _ member _ child rest
            refine ⟨unreachable, ?_⟩
            intro k' member y keyY
            rcases List.mem_cons.mp member with rfl | member
            · intro reached
              exact unreachable (decides y x k' keyY key reached)
            · exact memo₁ k' member y keyY

end

end ProofRay.Lib.MemoSearch
