/- Ranks in a list: how many entries are at most a value, the bisection that counts them in a sorted
   list, and how many entries have a low rank. -/

import Mathlib.Data.List.MinMax
import Mathlib.Data.List.Perm.Basic
import Mathlib.Data.List.Count
import Mathlib.Order.Lattice

namespace ProofRay.Lib

universe u

variable {α : Type u} [LinearOrder α]

/-- How many entries are at most `x`. -/
def rank (l : List α) (x : α) : Nat := l.countP (· ≤ x)

theorem rank_cons (a : α) (l : List α) (x : α) :
    rank (a :: l) x = rank l x + if a ≤ x then 1 else 0 := by
  unfold rank
  rw [List.countP_cons]
  simp only [decide_eq_true_eq]

theorem rank_perm {l l' : List α} (perm : l.Perm l') (x : α) : rank l x = rank l' x :=
  perm.countP_eq _

theorem rank_le_length (l : List α) (x : α) : rank l x ≤ l.length := List.countP_le_length

/-- The loop of `bisect_right` over the half-open interval from `lo` to `hi`. -/
def bisectLoop (l : List α) (target : α) : Nat → Nat → Nat → Nat
  | 0, lo, _ => lo
  | fuel + 1, lo, hi =>
    if lo < hi then
      match l[(lo + hi) / 2]? with
      | none => lo
      | some k =>
        if target < k then bisectLoop l target fuel lo ((lo + hi) / 2)
        else bisectLoop l target fuel ((lo + hi) / 2 + 1) hi
    else lo

/-- `bisect_right(l, target)`; each probe shortens the interval, so the length of the list is fuel
enough. -/
def bisectRight (l : List α) (target : α) : Nat := bisectLoop l target l.length 0 l.length

variable {l : List α}

variable {x : α}

theorem le_iff_lt_rank (sorted : l.Pairwise (· ≤ ·)) :
    ∀ {i : Nat} {y : α}, l[i]? = some y → (y ≤ x ↔ i < rank l x) := by
  induction l with
  | nil =>
    intro i y found
    cases found
  | cons a l ih =>
    intro i y found
    obtain ⟨first, rest⟩ := List.pairwise_cons.mp sorted
    rw [rank_cons]
    by_cases below : a ≤ x
    · rw [if_pos below]
      cases i with
      | zero =>
        cases found
        exact iff_of_true below (Nat.succ_pos _)
      | succ i =>
        rw [ih rest found]
        omega
    · rw [if_neg below]
      have none_below : rank l x = 0 := by
        unfold rank
        rw [List.countP_eq_zero]
        intro b member
        have above := lt_of_lt_of_le (lt_of_not_ge below) (first b member)
        simpa using above
      rw [none_below]
      refine iff_of_false ?_ (Nat.not_lt_zero _)
      cases i with
      | zero =>
        cases found
        exact below
      | succ i =>
        have later := first y (List.mem_of_getElem? found)
        exact fun small => below (later.trans small)

private theorem bisectLoop_eq (sorted : l.Pairwise (· ≤ ·)) :
    ∀ {fuel lo hi : Nat}, lo ≤ rank l x → rank l x ≤ hi → hi ≤ l.length → hi - lo ≤ fuel →
      bisectLoop l x fuel lo hi = rank l x := by
  intro fuel
  induction fuel with
  | zero =>
    intro lo hi below above _ enough
    simp only [bisectLoop]
    omega
  | succ fuel ih =>
    intro lo hi below above bound enough
    simp only [bisectLoop]
    by_cases more : lo < hi
    · have inside : (lo + hi) / 2 < l.length := by omega
      have here := le_iff_lt_rank sorted (x := x) (List.getElem?_eq_getElem inside)
      rw [if_pos more, List.getElem?_eq_getElem inside]
      simp only
      by_cases greater : x < l[(lo + hi) / 2]
      · rw [if_pos greater]
        have beyond := mt here.mpr (not_le_of_gt greater)
        exact ih below (by omega) (by omega) (by omega)
      · rw [if_neg greater]
        have before := here.mp (le_of_not_gt greater)
        exact ih (by omega) above bound (by omega)
    · rw [if_neg more]
      omega

theorem bisectRight_eq (sorted : l.Pairwise (· ≤ ·)) (x : α) : bisectRight l x = rank l x :=
  bisectLoop_eq sorted (Nat.zero_le _) (rank_le_length l x) (Nat.le_refl _) (by omega)

section

variable {α : Type u}

def choices : List α → List (α × List α)
  | [] => []
  | a :: l => (a, l) :: (choices l).map fun e => (e.1, a :: e.2)

theorem map_fst_choices (l : List α) : (choices l).map Prod.fst = l := by
  induction l with
  | nil => rfl
  | cons a l ih =>
    simp only [choices, List.map_cons, List.map_map]
    exact congrArg (a :: ·) ih

theorem perm_of_mem_choices {l : List α} : ∀ {e : α × List α}, e ∈ choices l →
    (e.1 :: e.2).Perm l := by
  induction l with
  | nil =>
    intro e member
    cases member
  | cons a l ih =>
    intro e member
    rcases List.mem_cons.mp member with rfl | later
    · exact List.Perm.refl _
    · obtain ⟨e', there, rfl⟩ := List.mem_map.mp later
      exact (List.Perm.swap a e'.1 e'.2).trans ((ih there).cons a)

end

theorem rank_of_mem_choices {e : α × List α} (member : e ∈ choices l) :
    1 + rank e.2 e.1 = rank l e.1 := by
  rw [← rank_perm (perm_of_mem_choices member), rank_cons, if_pos (le_refl e.1), Nat.add_comm]

theorem exists_countP_le_rank (l : List α) (low : Nat → Bool)
    (some_low : l.countP (fun x => low (rank l x)) ≠ 0) :
    ∃ x ∈ l, low (rank l x) ∧ l.countP (fun x => low (rank l x)) ≤ rank l x := by
  rw [List.countP_eq_length_filter] at some_low ⊢
  -- the greatest of them is preceded by all of them
  obtain ⟨greatest, here⟩ := WithBot.ne_bot_iff_exists.mp
    (List.maximum_ne_bot_of_length_pos (Nat.pos_of_ne_zero some_low))
  obtain ⟨member, chosen⟩ := List.mem_filter.mp (List.maximum_mem here.symm)
  refine ⟨greatest, member, chosen, ?_⟩
  have all_below : ∀ y ∈ l.filter fun x => low (rank l x), y ≤ greatest :=
    fun y there => List.le_maximum_of_mem there here.symm
  calc (l.filter fun x => low (rank l x)).length
      = rank (l.filter fun x => low (rank l x)) greatest := by
        symm
        unfold rank
        rw [List.countP_eq_length]
        intro y there
        exact decide_eq_true (all_below y there)
    _ ≤ rank l greatest := List.filter_sublist.countP_le

end ProofRay.Lib
