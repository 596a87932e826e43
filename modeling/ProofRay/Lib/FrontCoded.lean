/- Sorted runs of keyed entries cut into blocks, and words written as what the word before does not
   share. -/

import ProofRay.Lib.Rank
import Mathlib.Data.List.Forall2

namespace ProofRay.Lib.FrontCoded

section Shared

variable {α : Type} [DecidableEq α]

/-- How many items two words have in common from the start, up to `cap` of them. -/
def shared : Nat → List α → List α → Nat
  | cap + 1, a :: previous, b :: word => if a = b then shared cap previous word + 1 else 0
  | _, _, _ => 0

theorem shared_le : ∀ (cap : Nat) (previous word : List α), shared cap previous word ≤ cap
  | 0, _, _ => Nat.le_refl 0
  | cap + 1, [], _ => Nat.zero_le _
  | cap + 1, _ :: _, [] => Nat.zero_le _
  | cap + 1, a :: previous, b :: word => by
    rw [shared]
    split
    · exact Nat.succ_le_succ (shared_le cap previous word)
    · exact Nat.zero_le _

theorem take_shared_append_drop :
    ∀ (cap : Nat) (previous word : List α),
      previous.take (shared cap previous word) ++ word.drop (shared cap previous word) = word
  | 0, _, _ => rfl
  | cap + 1, [], _ => rfl
  | cap + 1, _ :: _, [] => rfl
  | cap + 1, a :: previous, b :: word => by
    rw [shared]
    by_cases same : a = b
    · rw [if_pos same, List.take_succ_cons, List.drop_succ_cons, List.cons_append, same,
        take_shared_append_drop cap previous word]
    · rw [if_neg same, List.take_zero, List.drop_zero, List.nil_append]

end Shared

section Search

variable {κ μ : Type} [LinearOrder κ]

/-- Walk a run from its start and give up at the first key beyond the target. -/
def seek (target : κ) : List (κ × μ) → Option μ
  | [] => none
  | (key, value) :: rest =>
    if key = target then some value
    else if target < key then none
    else seek target rest

abbrev Increasing (run : List (κ × μ)) : Prop := run.Pairwise fun a b => a.1 < b.1

variable {blocks : List (List (κ × μ))} {keys : List κ} {target : κ}

variable {run : List (κ × μ)}

theorem seek_eq_some_iff (increasing : Increasing run) {value : μ} :
    seek target run = some value ↔ (target, value) ∈ run := by
  induction run with
  | nil => simp [seek]
  | cons entry rest ih =>
    obtain ⟨key, found⟩ := entry
    obtain ⟨below, increasing⟩ := List.pairwise_cons.mp increasing
    rw [seek, List.mem_cons, Prod.mk.injEq]
    by_cases here : key = target
    · have later : (target, value) ∉ rest := fun member => lt_irrefl _ (here ▸ below _ member)
      rw [if_pos here, Option.some.injEq]
      constructor
      · rintro rfl
        exact .inl ⟨here.symm, rfl⟩
      · rintro (⟨-, rfl⟩ | member)
        · rfl
        · exact absurd member later
    · rw [if_neg here]
      have other : ¬ (target = key ∧ value = found) := fun both => here both.1.symm
      by_cases beyond : target < key
      · have later : (target, value) ∉ rest := fun member => lt_asymm beyond (below _ member)
        rw [if_pos beyond]
        exact iff_of_false (by simp) (not_or.mpr ⟨other, later⟩)
      · rw [if_neg beyond, ih increasing]
        exact ⟨.inr, fun either => either.resolve_left other⟩

theorem seek_eq_none_iff (increasing : Increasing run) :
    seek target run = none ↔ ∀ value, (target, value) ∉ run := by
  rw [Option.eq_none_iff_forall_ne_some]
  exact forall_congr' fun value => not_congr (seek_eq_some_iff increasing)

def Heads : List κ → List (List (κ × μ)) → Prop :=
  List.Forall₂ fun key block => ∃ value rest, block = (key, value) :: rest

omit [LinearOrder κ] in
private theorem mem_heads (heads : Heads keys blocks) {key : κ} (member : key ∈ keys) :
    ∃ value, (key, value) ∈ blocks.flatten := by
  induction heads with
  | nil => cases member
  | @cons first block keys blocks head _ ih =>
    obtain ⟨value, rest, rfl⟩ := head
    rcases List.mem_cons.mp member with rfl | later
    · exact ⟨value, List.mem_cons_self⟩
    · obtain ⟨found, there⟩ := ih later
      exact ⟨found, List.mem_append_right _ there⟩

theorem pairwise_heads (heads : Heads keys blocks) (increasing : Increasing blocks.flatten) :
    keys.Pairwise (· < ·) := by
  induction heads with
  | nil => exact List.Pairwise.nil
  | @cons first block keys blocks head rest ih =>
    obtain ⟨value, entries, rfl⟩ := head
    rw [List.flatten_cons, Increasing, List.pairwise_append] at increasing
    obtain ⟨-, later, apart⟩ := increasing
    refine List.pairwise_cons.mpr ⟨fun key member => ?_, ih later⟩
    obtain ⟨found, there⟩ := mem_heads rest member
    exact apart _ List.mem_cons_self _ there

theorem notMem_of_rank_eq_zero (heads : Heads keys blocks) (increasing : Increasing blocks.flatten)
    (none_below : rank keys target = 0) (value : μ) : (target, value) ∉ blocks.flatten := by
  induction heads with
  | nil => simp
  | @cons first block keys blocks head _ ih =>
    obtain ⟨found, entries, rfl⟩ := head
    rw [List.flatten_cons, Increasing, List.pairwise_append] at increasing
    obtain ⟨inside, later, -⟩ := increasing
    rw [rank_cons] at none_below
    have above : ¬ first ≤ target := by
      intro below
      rw [if_pos below] at none_below
      omega
    rw [List.flatten_cons, List.mem_append, not_or]
    refine ⟨fun member => ?_, ih later (by omega)⟩
    rcases List.mem_cons.mp member with same | member
    · exact above (le_of_eq (congrArg Prod.fst same).symm)
    · exact above (le_of_lt ((List.pairwise_cons.mp inside).1 _ member))

theorem mem_flatten_iff_of_rank (heads : Heads keys blocks) (increasing : Increasing blocks.flatten)
    {i : Nat} (last : rank keys target = i + 1) {block : List (κ × μ)}
    (there : blocks[i]? = some block) (value : μ) :
    (target, value) ∈ blocks.flatten ↔ (target, value) ∈ block := by
  induction heads generalizing i with
  | nil => cases there
  | @cons first head keys blocks start rest ih =>
    have parts := increasing
    rw [List.flatten_cons, Increasing, List.pairwise_append] at parts
    obtain ⟨-, later, apart⟩ := parts
    rw [rank_cons] at last
    rw [List.flatten_cons, List.mem_append]
    cases below : rank keys target with
    | zero =>
      -- no later block starts low enough: the target can only be in this one
      have first_block : i = 0 := by
        split at last
        all_goals omega
      subst first_block
      cases there
      have outside := notMem_of_rank_eq_zero rest later below value
      exact ⟨fun either => either.resolve_right outside, .inl⟩
    | succ j =>
      obtain ⟨key, member, low⟩ : ∃ key ∈ keys, key ≤ target := by
        have positive : 0 < keys.countP fun key => decide (key ≤ target) := by
          show 0 < rank keys target
          omega
        obtain ⟨key, member, low⟩ := List.countP_pos_iff.mp positive
        exact ⟨key, member, of_decide_eq_true low⟩
      obtain ⟨found, held⟩ := mem_heads rest member
      have first_low : first ≤ target := by
        obtain ⟨v, entries, rfl⟩ := start
        exact (apart _ List.mem_cons_self _ held).le.trans low
      have position : i = j + 1 := by
        rw [if_pos first_low] at last
        omega
      subst position
      have outside : (target, value) ∉ head := fun here =>
        lt_irrefl _ ((apart _ here _ held).trans_le low)
      rw [List.getElem?_cons_succ] at there
      exact ⟨fun either => (ih later below there).mp (either.resolve_left outside),
        fun inside => .inr ((ih later below there).mpr inside)⟩

end Search

end ProofRay.Lib.FrontCoded
