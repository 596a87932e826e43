/- A depth-first search for one solution under a budget of visits: each visit gives a node up,
   answers it or splits it. -/

import Mathlib.Data.Set.Basic

namespace ProofRay.Lib.Backtrack

universe u v w

variable {ν : Type u} {σ : Type v} {α : Type w}

/-- What a visit makes of a node. -/
inductive Outcome (ν : Type u) (α : Type w) where
  | dead
  | answer (a : α)
  | split (children : List ν)

/-- What a search has spent, with what else its visits count. -/
structure Effort (σ : Type v) where
  explored : Nat
  counted : σ
  exhausted : Bool

def tryEach (visit : ν → Effort σ → Option α × Effort σ) : List ν → Effort σ → Option α × Effort σ
  | [], e => (none, e)
  | n :: rest, e =>
    match visit n e with
    | (some a, e') => (some a, e')
    | (none, e') => if e'.exhausted then (none, e') else tryEach visit rest e'

def search (step : ν → σ → Outcome ν α × σ) (maxStates : Int) : Nat → ν → Effort σ →
    Option α × Effort σ
  | 0, _, e => (none, e)
  | fuel + 1, n, e =>
    if (e.explored : Int) ≥ maxStates then (none, { e with exhausted := true })
    else
      let made := step n e.counted
      let e' : Effort σ := { e with explored := e.explored + 1, counted := made.2 }
      match made.1 with
      | .dead => (none, e')
      | .answer a => (some a, e')
      | .split children => tryEach (search step maxStates fuel) children e'

/-- Visits that answer with solutions, lose none of them, and split into smaller nodes. -/
structure Sound (step : ν → σ → Outcome ν α × σ) (good : ν → Prop) (solutions : ν → Set α)
    (measure : ν → Nat) : Prop where
  dead : ∀ n s, good n → (step n s).1 = .dead → solutions n = ∅
  answer : ∀ n s a, good n → (step n s).1 = .answer a → a ∈ solutions n
  smaller : ∀ n s children, good n → (step n s).1 = .split children →
    ∀ m ∈ children, good m ∧ measure m < measure n
  covers : ∀ n s children, good n → (step n s).1 = .split children →
    ∀ a, a ∈ solutions n ↔ ∃ m ∈ children, a ∈ solutions m

section

variable {step : ν → σ → Outcome ν α × σ} {good : ν → Prop} {solutions : ν → Set α}
  {measure : ν → Nat} {maxStates : Int}

def Settles (solutions : Set α) (r : Option α × Effort σ) : Prop :=
  (∀ a, r.1 = some a → a ∈ solutions) ∧ (r.1 = none → r.2.exhausted = false → solutions = ∅)

variable {children : List ν} {n : ν}

theorem settles_tryEach {visit : ν → Effort σ → Option α × Effort σ}
    (each : ∀ n ∈ children, ∀ e, Settles (solutions n) (visit n e)) (e : Effort σ) :
    Settles {a | ∃ n ∈ children, a ∈ solutions n} (tryEach visit children e) := by
  induction children generalizing e with
  | nil =>
    refine ⟨fun a found => (by cases found), fun _ _ => ?_⟩
    ext a
    simp
  | cons n rest ih =>
    obtain ⟨here, later⟩ := List.forall_mem_cons.mp each
    obtain ⟨finds, fails⟩ := here e
    unfold tryEach
    split
    · rename_i a e' visited
      rw [visited] at finds
      refine ⟨fun b found => ?_, fun none => (by cases none)⟩
      cases found
      exact ⟨n, List.mem_cons_self, finds a rfl⟩
    · rename_i e' visited
      rw [visited] at fails
      split
      · rename_i ended
        refine ⟨fun a found => (by cases found), fun _ lasts => ?_⟩
        rw [ended] at lasts
        cases lasts
      · rename_i lasts
        have none_here := fails rfl (Bool.eq_false_iff.mpr lasts)
        obtain ⟨finds', fails'⟩ := ih later e'
        refine ⟨fun a found => ?_, fun none fine => ?_⟩
        · obtain ⟨m, member, inside⟩ := finds' a found
          exact ⟨m, List.mem_cons_of_mem _ member, inside⟩
        · have none_later := fails' none fine
          refine Set.eq_empty_iff_forall_notMem.mpr ?_
          rintro a ⟨m, member, inside⟩
          rcases List.mem_cons.mp member with rfl | rest_member
          · rw [none_here] at inside
            exact inside
          · have there : a ∈ {a | ∃ n ∈ rest, a ∈ solutions n} := ⟨m, rest_member, inside⟩
            rw [none_later] at there
            exact there

theorem settles_search (sound : Sound step good solutions measure) {fuel : Nat}
    (enough : measure n < fuel) (here : good n) (e : Effort σ) :
    Settles (solutions n) (search step maxStates fuel n e) := by
  induction fuel generalizing n e with
  | zero => omega
  | succ fuel ih =>
    unfold search
    split
    · exact ⟨fun a found => (by cases found), fun _ lasts => (by cases lasts)⟩
    · simp only
      split
      · rename_i dead
        exact ⟨fun a found => (by cases found), fun _ _ => sound.dead n _ here dead⟩
      · rename_i a answered
        refine ⟨fun b found => ?_, fun none => (by cases none)⟩
        cases found
        exact sound.answer n _ a here answered
      · rename_i children split_up
        have each : ∀ m ∈ children, ∀ e, Settles (solutions m)
            (search step maxStates fuel m e) := by
          intro m member e
          obtain ⟨fine, less⟩ := sound.smaller n _ children here split_up m member
          exact ih (by omega) fine e
        have all := settles_tryEach each
          { e with explored := e.explored + 1, counted := (step n e.counted).2 }
        have same : solutions n = {a | ∃ m ∈ children, a ∈ solutions m} := by
          ext a
          exact sound.covers n _ children here split_up a
        rw [same]
        exact all

theorem tryEach_congr {visit visit' : ν → Effort σ → Option α × Effort σ}
    (same : ∀ n ∈ children, ∀ e, visit n e = visit' n e) (e : Effort σ) :
    tryEach visit children e = tryEach visit' children e := by
  induction children generalizing e with
  | nil => rfl
  | cons n rest ih =>
    obtain ⟨here, later⟩ := List.forall_mem_cons.mp same
    rw [tryEach, tryEach, here e]
    split
    · rfl
    · split
      · rfl
      · exact ih later _

theorem search_of_measure (sound : Sound step good solutions measure) {fuel fuel' : Nat}
    (enough : measure n < fuel) (enough' : measure n < fuel') (here : good n) (e : Effort σ) :
    search step maxStates fuel n e = search step maxStates fuel' n e := by
  induction fuel generalizing n e fuel' with
  | zero => omega
  | succ fuel ih =>
    obtain ⟨fuel', rfl⟩ : ∃ m, fuel' = m + 1 := ⟨fuel' - 1, by omega⟩
    unfold search
    split
    · rfl
    · dsimp only
      split
      · rfl
      · rfl
      · rename_i children split_up
        refine tryEach_congr (fun m member e => ?_) _
        obtain ⟨fine, less⟩ := sound.smaller n _ children here split_up m member
        exact ih (by omega) (by omega) fine e

end

end ProofRay.Lib.Backtrack
