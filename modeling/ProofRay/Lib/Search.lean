/- Binary search in a list whose keys are strictly increasing. -/

import Mathlib.Data.List.Pairwise
import Mathlib.Order.Lattice

namespace ProofRay.Lib.Search

universe u v

variable {α : Type u} {κ : Type v} [LinearOrder κ]

/-- The loop over the half-open interval from `lo` to `hi`. -/
def searchLoop (l : List α) (key : α → κ) (target : κ) : Nat → Nat → Nat → Option α
  | 0, _, _ => none
  | fuel + 1, lo, hi =>
    if lo < hi then
      match l[(lo + hi) / 2]? with
      | none => none
      | some a =>
        if key a = target then some a
        else if key a < target then searchLoop l key target fuel ((lo + hi) / 2 + 1) hi
        else searchLoop l key target fuel lo ((lo + hi) / 2)
    else none

/-- The element with key `target`; each probe shortens the interval, so the length of the
list is fuel enough. -/
def search (l : List α) (key : α → κ) (target : κ) : Option α :=
  searchLoop l key target l.length 0 l.length

def Increasing (l : List α) (key : α → κ) : Prop := l.Pairwise fun a b => key a < key b

instance (l : List α) (key : α → κ) : Decidable (Increasing l key) :=
  inferInstanceAs (Decidable (l.Pairwise fun a b => key a < key b))

variable {key : α → κ} {l : List α} {a b : α}

variable {i j : Nat}

theorem Increasing.key_lt (inc : Increasing l key) (lt : i < j) (hi : l[i]? = some a)
    (hj : l[j]? = some b) : key a < key b := by
  obtain ⟨boundI, rfl⟩ := List.getElem?_eq_some_iff.mp hi
  obtain ⟨boundJ, rfl⟩ := List.getElem?_eq_some_iff.mp hj
  exact List.pairwise_iff_getElem.mp inc i j boundI boundJ lt

theorem Increasing.key_inj (inc : Increasing l key) (hi : l[i]? = some a) (hj : l[j]? = some b)
    (same : key a = key b) : i = j := by
  rcases Nat.lt_trichotomy i j with less | eq | more
  · exact absurd same (ne_of_lt (inc.key_lt less hi hj))
  · exact eq
  · exact absurd same.symm (ne_of_lt (inc.key_lt more hj hi))

theorem Increasing.eq_of_key_eq (inc : Increasing l key) (ha : a ∈ l) (hb : b ∈ l)
    (same : key a = key b) : a = b := by
  obtain ⟨i, hi⟩ := List.mem_iff_getElem?.mp ha
  obtain ⟨j, hj⟩ := List.mem_iff_getElem?.mp hb
  have index := inc.key_inj hi hj same
  subst index
  exact Option.some.inj (hi.symm.trans hj)

end ProofRay.Lib.Search
