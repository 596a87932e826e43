/- Objects that hold their parts by reference: as long as no cell is held twice, nobody sees the
   writes of another. -/

import ProofRay.Lib.CowShards

namespace ProofRay.Lib.Slots

open Lib.CowShards (objectAt objectAt_append_left objectAt_append_self objectAt_set_ne
  objectAt_set_self)
open Function (update_of_ne update_self)

universe u v

variable {ι : Type u} {ω : Type v}

/-- The cells of a program and the address an object holds each of its parts at. -/
structure Holding (ι : Type u) (ω : Type v) where
  heap : List ω
  held : ι → Nat

/-- What a write does with the cell that is there. -/
inductive Mode where
  | inPlace
  | replaced
  deriving DecidableEq, Repr

section

variable [DecidableEq ι]

def write (s : Holding ι ω) (part : ι) (mode : Mode) (cell : ω) : Holding ι ω :=
  match mode with
  | .inPlace => ⟨s.heap.set (s.held part) cell, s.held⟩
  | .replaced => ⟨s.heap ++ [cell], Function.update s.held part s.heap.length⟩

def writes (s : Holding ι ω) (entries : List (ι × Mode × ω)) : Holding ι ω :=
  entries.foldl (fun s entry => write s entry.1 entry.2.1 entry.2.2) s

@[simp] theorem writes_nil (s : Holding ι ω) : writes s [] = s := rfl

@[simp] theorem writes_cons (s : Holding ι ω) (entry : ι × Mode × ω)
    (entries : List (ι × Mode × ω)) :
    writes s (entry :: entries) = writes (write s entry.1 entry.2.1 entry.2.2) entries := rfl

end

variable (blank : ω)

def view (s : Holding ι ω) (part : ι) : ω := objectAt blank s.heap (s.held part)

/-- An object holds cells of the heap, and none of them twice. -/
structure Holding.Own (s : Holding ι ω) : Prop where
  inside : ∀ part, s.held part < s.heap.length
  apart : Function.Injective s.held

/-- What becomes of the cells an object does not hold. -/
structure Keeps (s s' : Holding ι ω) : Prop where
  grows : s.heap.length ≤ s'.heap.length
  same : ∀ a < s.heap.length, (∀ part, s.held part ≠ a) →
    objectAt blank s'.heap a = objectAt blank s.heap a
  held : ∀ part, s'.held part = s.held part ∨ s.heap.length ≤ s'.held part

variable {blank} {s s' s'' : Holding ι ω}

theorem Keeps.refl (s : Holding ι ω) : Keeps blank s s :=
  ⟨le_rfl, fun _ _ _ => rfl, fun _ => .inl rfl⟩

theorem Keeps.trans (first : Keeps blank s s') (second : Keeps blank s' s'') :
    Keeps blank s s'' where
  grows := first.grows.trans second.grows
  same a inside foreign := by
    rw [second.same a (inside.trans_le first.grows) fun part same => ?_,
      first.same a inside foreign]
    rcases first.held part with kept | fresh
    · exact foreign part (kept ▸ same)
    · omega
  held part := by
    rcases second.held part with kept | fresh
    · rw [kept]
      exact first.held part
    · exact .inr (first.grows.trans fresh)

section

variable [DecidableEq ι]

theorem Holding.Own.write (own : s.Own) (part : ι) (mode : Mode) (cell : ω) :
    (write s part mode cell).Own := by
  cases mode with
  | inPlace => exact ⟨fun other => by simpa [Slots.write] using own.inside other, own.apart⟩
  | replaced =>
    constructor
    · intro other
      by_cases same : other = part
      · simp [Slots.write, same]
      · have inside := own.inside other
        simp [Slots.write, update_of_ne same]
        omega
    · intro one other same
      have ne (p : ι) : s.held p ≠ s.heap.length := (own.inside p).ne
      by_cases first : one = part
      · by_cases second : other = part
        · rw [first, second]
        · simp [Slots.write, first, update_of_ne second] at same
          exact absurd same.symm (ne other)
      · by_cases second : other = part
        · simp [Slots.write, second, update_of_ne first] at same
          exact absurd same (ne one)
        · simp only [Slots.write, update_of_ne first, update_of_ne second] at same
          exact own.apart same

theorem view_write (own : s.Own) (part : ι) (mode : Mode) (cell : ω) :
    view blank (write s part mode cell) = Function.update (view blank s) part cell := by
  funext other
  by_cases same : other = part
  · subst same
    rw [update_self]
    cases mode with
    | inPlace => exact objectAt_set_self _ _ (own.inside other) cell
    | replaced =>
      simp only [view, write, update_self]
      exact objectAt_append_self _ _ cell
  · rw [update_of_ne same]
    cases mode with
    | inPlace => exact objectAt_set_ne _ _ (fun held => same (own.apart held)) cell
    | replaced =>
      simp only [view, write, update_of_ne same]
      exact objectAt_append_left _ _ _ (own.inside other)

theorem keeps_write (part : ι) (mode : Mode) (cell : ω) :
    Keeps blank s (write s part mode cell) := by
  cases mode with
  | inPlace =>
    refine ⟨by simp [write], fun a _ foreign => ?_, fun _ => .inl rfl⟩
    exact objectAt_set_ne _ _ (fun same => foreign part same.symm) cell
  | replaced =>
    refine ⟨by simp [write], fun a inside _ => objectAt_append_left _ _ _ inside, fun other => ?_⟩
    by_cases same : other = part
    · exact .inr (by simp [write, same])
    · exact .inl (by simp [write, update_of_ne same])

theorem Holding.Own.writes (own : s.Own) (entries : List (ι × Mode × ω)) :
    (Slots.writes s entries).Own := by
  induction entries generalizing s with
  | nil => exact own
  | cons entry rest ih => exact ih (own.write _ _ _)

variable (blank) in
theorem view_writes (own : s.Own) (entries : List (ι × Mode × ω)) :
    view blank (writes s entries) = entries.foldl (fun parts entry =>
      Function.update parts entry.1 entry.2.2) (view blank s) := by
  induction entries generalizing s with
  | nil => rfl
  | cons entry rest ih => rw [writes_cons, ih (own.write _ _ _), view_write own, List.foldl_cons]

variable (blank s) in
theorem keeps_writes (entries : List (ι × Mode × ω)) : Keeps blank s (writes s entries) := by
  induction entries generalizing s with
  | nil => exact Keeps.refl s
  | cons entry rest ih => exact (keeps_write _ _ _).trans (ih _)

end

section

universe w x y

variable {κ : Type w} {α : Type x} {β : Type y}

def mapValues (f : α → β) (d : Dict κ α) : Dict κ β :=
  ⟨d.items.map fun e => (e.1, f e.2), by
    have same : (fun e : κ × β => e.1) ∘ (fun e : κ × α => (e.1, f e.2)) = Prod.fst := rfl
    rw [List.map_map, same]
    exact d.nodup⟩

theorem mapValues_congr {f g : α → β} {d : Dict κ α} (same : ∀ e ∈ d.items, f e.2 = g e.2) :
    mapValues f d = mapValues g d := by
  have items : (d.items.map fun e => (e.1, f e.2)) = d.items.map fun e => (e.1, g e.2) :=
    List.map_congr_left fun e member => by rw [same e member]
  simp only [mapValues, items]

theorem mapValues_set [DecidableEq κ] (f : α → β) (d : Dict κ α) (k : κ) (a : α) :
    mapValues f (d.set k a) = (mapValues f d).set k (f a) := by
  have put (l : List (κ × α)) : (Dict.putEntry k a l).map (fun e => (e.1, f e.2)) =
      Dict.putEntry k (f a) (l.map fun e => (e.1, f e.2)) := by
    induction l with
    | nil => rfl
    | cons e l ih =>
      rw [Dict.putEntry, List.map_cons, Dict.putEntry]
      split
      · rfl
      · rw [List.map_cons, ih]
  have items : (mapValues f (d.set k a)).items = ((mapValues f d).set k (f a)).items := put d.items
  cases left : mapValues f (d.set k a)
  cases right : (mapValues f d).set k (f a)
  rw [left, right] at items
  simp only at items
  subst items
  rfl

theorem mapValues_update [DecidableEq κ] (f : α → β) (d : Dict κ α) (entries : List (κ × α)) :
    mapValues f (d.update entries) =
      (mapValues f d).update (entries.map fun e => (e.1, f e.2)) := by
  induction entries generalizing d with
  | nil => rfl
  | cons e entries ih =>
    rw [Dict.update_cons, ih, mapValues_set, List.map_cons, Dict.update_cons]

end

section

variable [DecidableEq ι] (heap : List ω) (parts : List ι) (cells : ι → ω)

def allot : Holding ι ω := ⟨heap ++ parts.map cells, fun part => heap.length + parts.idxOf part⟩

variable {heap parts cells} (complete : ∀ part, part ∈ parts)

include complete

theorem own_allot : (allot heap parts cells).Own where
  inside part := by
    have := List.idxOf_lt_length_of_mem (complete part)
    simp [allot, this]
  apart one other same := by
    have same : parts.idxOf one = parts.idxOf other := by simpa [allot] using same
    exact (List.idxOf_inj (complete one)).mp same

theorem view_allot : view blank (allot heap parts cells) = cells := by
  funext part
  have inside := List.idxOf_lt_length_of_mem (complete part)
  simp [view, allot, objectAt, inside]

end

/-- The objects of a program, no two of which hold a cell together. -/
structure Separate (heap : List ω) (holders : List (ι → Nat)) : Prop where
  inside : ∀ held ∈ holders, ∀ part, held part < heap.length
  injective : ∀ {n m : Nat} {held held' : ι → Nat} {part part' : ι}, holders[n]? = some held →
    holders[m]? = some held' → held part = held' part' → n = m ∧ part = part'

/-- A cell that no object holds. -/
structure Loose (heap : List ω) (holders : List (ι → Nat)) (a : Nat) : Prop where
  inside : a < heap.length
  free : ∀ held ∈ holders, ∀ part, held part ≠ a

variable {heap : List ω} {holders : List (ι → Nat)} {n : Nat} {held : ι → Nat}

theorem Separate.own (apart : Separate heap holders) (found : holders[n]? = some held) :
    (⟨heap, held⟩ : Holding ι ω).Own :=
  ⟨apart.inside held (List.mem_of_getElem? found),
    fun _ _ same => (apart.injective found found same).2⟩

theorem Separate.append (apart : Separate heap holders) (cells : List ω) :
    Separate (heap ++ cells) holders where
  inside held member part := by
    have := apart.inside held member part
    rw [List.length_append]
    omega
  injective := apart.injective

theorem Loose.append {a : Nat} (loose : Loose heap holders a) (cells : List ω) :
    Loose (heap ++ cells) holders a :=
  ⟨by have := loose.inside; rw [List.length_append]; omega, loose.free⟩

theorem Separate.loose_append (apart : Separate heap holders) {cells : List ω} {i : Nat}
    (inside : i < cells.length) : Loose (heap ++ cells) holders (heap.length + i) :=
  ⟨by rw [List.length_append]; omega, fun held member part same => by
    have := apart.inside held member part
    omega⟩

theorem view_append (apart : Separate heap holders) (cells : List ω) (member : held ∈ holders) :
    view blank ⟨heap ++ cells, held⟩ = view blank ⟨heap, held⟩ :=
  funext fun part => objectAt_append_left _ _ _ (apart.inside held member part)

section

variable (apart : Separate heap holders) (found : holders[n]? = some held)
  (keeps : Keeps blank ⟨heap, held⟩ s)

include apart found keeps

variable {held' : ι → Nat} {m : Nat}

theorem Separate.held_set (part : ι) (holder : (holders.set n s.held)[m]? = some held') :
    (m = n ∧ held' = s.held) ∨ (m ≠ n ∧ holders[m]? = some held' ∧ held' part < heap.length ∧
      ∀ p, s.held p ≠ held' part) := by
  by_cases same : n = m
  · subst same
    have bound := (List.getElem?_eq_some_iff.mp found).1
    rw [List.getElem?_set_self bound, Option.some.injEq] at holder
    exact .inl ⟨rfl, holder.symm⟩
  · rw [List.getElem?_set_ne same] at holder
    have inside := apart.inside held' (List.mem_of_getElem? holder) part
    refine .inr ⟨Ne.symm same, holder, inside, fun p taken => ?_⟩
    rcases keeps.held p with kept | fresh
    · exact same (apart.injective found holder (kept ▸ taken)).1
    · have fresh : heap.length ≤ s.held p := fresh
      omega

theorem Separate.set (own : s.Own) : Separate s.heap (holders.set n s.held) where
  inside := by
    intro held' member part
    obtain ⟨m, holder⟩ := List.getElem?_of_mem member
    rcases apart.held_set found keeps part holder with ⟨-, rfl⟩ | ⟨-, -, inside, -⟩
    · exact own.inside part
    · exact inside.trans_le keeps.grows
  injective := by
    intro one other held₁ held₂ part part' first second same
    rcases apart.held_set found keeps part first with ⟨rfl, rfl⟩ | ⟨_, here, -, foreign⟩
    · rcases apart.held_set found keeps part' second with ⟨rfl, rfl⟩ | ⟨-, -, -, foreign⟩
      · exact ⟨rfl, own.apart same⟩
      · exact absurd same (foreign part)
    · rcases apart.held_set found keeps part' second with ⟨rfl, rfl⟩ | ⟨-, there, -, -⟩
      · exact absurd same.symm (foreign part')
      · exact apart.injective here there same

theorem Separate.view_other (other : holders[m]? = some held') (ne : m ≠ n) :
    view blank ⟨s.heap, held'⟩ = view blank ⟨heap, held'⟩ :=
  funext fun part => keeps.same _ (apart.inside held' (List.mem_of_getElem? other) part)
    fun _ same => ne (apart.injective found other same).1.symm

theorem Loose.set {a : Nat} (loose : Loose heap holders a) :
    Loose s.heap (holders.set n s.held) a ∧ objectAt blank s.heap a = objectAt blank heap a := by
  have own_free := loose.free held (List.mem_of_getElem? found)
  refine ⟨⟨loose.inside.trans_le keeps.grows, fun held' member part same => ?_⟩,
    keeps.same a loose.inside own_free⟩
  obtain ⟨m, holder⟩ := List.getElem?_of_mem member
  rcases apart.held_set found keeps part holder with ⟨-, rfl⟩ | ⟨-, there, -, -⟩
  · rcases keeps.held part with kept | fresh
    · exact own_free part (kept.symm.trans same)
    · have inside := loose.inside
      have fresh : heap.length ≤ s.held part := fresh
      omega
  · exact loose.free held' (List.mem_of_getElem? there) part same

end

section

variable [DecidableEq ι] {parts : List ι} {cells : ι → ω} (complete : ∀ part, part ∈ parts)

include complete

theorem Separate.concat (apart : Separate heap holders) :
    Separate (allot heap parts cells).heap (holders ++ [(allot heap parts cells).held]) := by
  have own : (allot heap parts cells).Own := own_allot complete
  have old {m : Nat} {held' : ι → Nat} (holder :
      (holders ++ [(allot heap parts cells).held])[m]? = some held') :
      (m = holders.length ∧ held' = (allot heap parts cells).held) ∨
        (holders[m]? = some held' ∧ ∀ part, held' part < heap.length) := by
    by_cases below : m < holders.length
    · rw [List.getElem?_append_left below] at holder
      exact .inr ⟨holder, apart.inside held' (List.mem_of_getElem? holder)⟩
    · have bound := (List.getElem?_eq_some_iff.mp holder).1
      rw [List.length_append, List.length_singleton] at bound
      obtain rfl : m = holders.length := by omega
      rw [List.getElem?_concat_length, Option.some.injEq] at holder
      exact .inl ⟨rfl, holder.symm⟩
  have fresh (part : ι) : heap.length ≤ (allot heap parts cells).held part := Nat.le_add_right _ _
  constructor
  · intro held' member part
    obtain ⟨m, holder⟩ := List.getElem?_of_mem member
    rcases old holder with ⟨-, rfl⟩ | ⟨-, inside⟩
    · exact own.inside part
    · have := inside part
      rw [allot, List.length_append]
      omega
  · intro one other held₁ held₂ part part' first second same
    rcases old first with ⟨rfl, rfl⟩ | ⟨here, below⟩
    · rcases old second with ⟨rfl, rfl⟩ | ⟨-, below⟩
      · exact ⟨rfl, own.apart same⟩
      · have := fresh part
        have := below part'
        omega
    · rcases old second with ⟨rfl, rfl⟩ | ⟨there, -⟩
      · have := fresh part'
        have := below part
        omega
      · exact apart.injective here there same

omit complete in
theorem Loose.concat {a : Nat} (loose : Loose heap holders a) :
    Loose (allot heap parts cells).heap (holders ++ [(allot heap parts cells).held]) a := by
  refine ⟨by have := loose.inside; rw [allot, List.length_append]; omega, ?_⟩
  intro held' member part same
  rcases List.mem_append.mp member with old | new
  · exact loose.free held' old part same
  · obtain rfl := List.mem_singleton.mp new
    have inside := loose.inside
    have fresh : heap.length ≤ (allot heap parts cells).held part := Nat.le_add_right _ _
    omega

end

end ProofRay.Lib.Slots
