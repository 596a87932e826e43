/- Sets written down in order: lists without repetitions, sorted by a key that tells their elements
   apart. -/

import Mathlib.Data.List.Dedup
import Mathlib.Data.List.Sort

namespace ProofRay.Lib

universe u v w

variable {α : Type u} {κ : Type v} {μ : Type w} [DecidableEq α] [LinearOrder κ] [LinearOrder μ]

/-- `tuple(sorted(set(values)))`, in the order of a key. -/
def sortedSet (key : α → κ) (l : List α) : List α :=
  l.dedup.insertionSort fun a b => key a ≤ key b

section

variable {key : α → κ} {l l' : List α} {a : α}

@[simp] theorem mem_sortedSet : a ∈ sortedSet key l ↔ a ∈ l := by
  rw [sortedSet, List.mem_insertionSort, List.mem_dedup]

theorem nodup_sortedSet : (sortedSet key l).Nodup :=
  (List.perm_insertionSort _ _).nodup_iff.mpr l.nodup_dedup

theorem pairwise_sortedSet (injective : Function.Injective key) :
    (sortedSet key l).Pairwise fun a b => key a < key b := by
  have rising : (sortedSet key l).Pairwise fun a b => key a ≤ key b :=
    List.pairwise_insertionSort _ _
  refine (rising.and nodup_sortedSet).imp fun h => ?_
  exact lt_of_le_of_ne h.1 fun same => h.2 (injective same)

omit [DecidableEq α] in
theorem eq_of_pairwise_lt (left : l.Pairwise fun a b => key a < key b)
    (right : l'.Pairwise fun a b => key a < key b) (same : ∀ a, a ∈ l ↔ a ∈ l') : l = l' := by
  have nodup {l : List α} (ordered : l.Pairwise fun a b => key a < key b) : l.Nodup :=
    ordered.imp fun {x y} less alike => by
      rw [alike] at less
      exact lt_irrefl _ less
  have perm := (List.perm_ext_iff_of_nodup (nodup left) (nodup right)).mpr same
  refine perm.eq_of_pairwise ?_ left right
  intro x y _ _ below above
  exact absurd below (lt_asymm above)

theorem sortedSet_congr (injective : Function.Injective key) (same : ∀ a, a ∈ l ↔ a ∈ l') :
    sortedSet key l = sortedSet key l' := by
  refine eq_of_pairwise_lt (pairwise_sortedSet injective) (pairwise_sortedSet injective) fun a => ?_
  rw [mem_sortedSet, mem_sortedSet, same]

theorem sortedSet_of_pairwise (injective : Function.Injective key)
    (ordered : l.Pairwise fun a b => key a < key b) : sortedSet key l = l :=
  eq_of_pairwise_lt (pairwise_sortedSet injective) ordered fun _ => mem_sortedSet

end

/-- The groups of pairs with the same first part: `grouped.setdefault(k, set()).add(m)` for each
pair, then the sorted items with their sets in order. -/
def grouped (pairs : List (κ × μ)) : List (κ × List μ) :=
  (sortedSet id (pairs.map Prod.fst)).map fun k =>
    (k, sortedSet id ((pairs.filter fun p => p.1 = k).map Prod.snd))

section

variable {pairs pairs' : List (κ × μ)} {k : κ} {m : μ}

theorem mem_keys_grouped : k ∈ (grouped pairs).map Prod.fst ↔ ∃ m, (k, m) ∈ pairs := by
  simp [grouped]

theorem nodup_keys_grouped : ((grouped pairs).map Prod.fst).Nodup := by
  have keys : (grouped pairs).map Prod.fst = sortedSet id (pairs.map Prod.fst) := by
    simp [grouped, Function.comp_def]
  rw [keys]
  exact nodup_sortedSet

variable {group : κ × List μ}

theorem mem_grouped (member : group ∈ grouped pairs) :
    (∃ m, (group.1, m) ∈ pairs) ∧ ∀ m, m ∈ group.2 ↔ (group.1, m) ∈ pairs := by
  obtain ⟨k, known, rfl⟩ := List.mem_map.mp member
  rw [mem_sortedSet, List.mem_map] at known
  obtain ⟨⟨k', m⟩, inPairs, rfl⟩ := known
  refine ⟨⟨m, inPairs⟩, fun m' => ?_⟩
  rw [mem_sortedSet, List.mem_map]
  constructor
  · rintro ⟨⟨k, m⟩, inFilter, rfl⟩
    obtain ⟨inPairs, same⟩ := List.mem_filter.mp inFilter
    exact of_decide_eq_true same ▸ inPairs
  · intro inPairs
    exact ⟨_, List.mem_filter.mpr ⟨inPairs, decide_eq_true rfl⟩, rfl⟩

theorem pairwise_of_mem_grouped (member : group ∈ grouped pairs) : group.2.Pairwise (· < ·) := by
  obtain ⟨k, -, rfl⟩ := List.mem_map.mp member
  exact pairwise_sortedSet Function.injective_id

theorem grouped_congr (same : ∀ p, p ∈ pairs ↔ p ∈ pairs') : grouped pairs = grouped pairs' := by
  have keys : sortedSet id (pairs.map Prod.fst) = sortedSet id (pairs'.map Prod.fst) := by
    refine sortedSet_congr Function.injective_id fun k => ?_
    simp only [List.mem_map, same]
  unfold grouped
  rw [keys]
  refine List.map_congr_left fun k _ => ?_
  have group : sortedSet id ((pairs.filter fun p => p.1 = k).map Prod.snd) =
      sortedSet id ((pairs'.filter fun p => p.1 = k).map Prod.snd) := by
    refine sortedSet_congr Function.injective_id fun m => ?_
    simp only [List.mem_map, List.mem_filter, same]
  rw [group]

end

/-- The groups of items with the same first part, each with all its sets together:
`groups.setdefault(k, set()).update(ms)` for each item, then the sorted items in order. -/
def collected (items : List (κ × List μ)) : List (κ × List μ) :=
  (sortedSet id (items.map Prod.fst)).map fun k =>
    (k, sortedSet id ((items.filter fun item => item.1 = k).flatMap Prod.snd))

variable {items : List (κ × List μ)}

theorem collected_eq_nil : collected items = [] ↔ items = [] := by
  constructor
  · intro none
    refine List.eq_nil_iff_forall_not_mem.mpr fun item member => ?_
    have keys : sortedSet id (items.map Prod.fst) = [] := List.map_eq_nil_iff.mp none
    have key : item.1 ∈ sortedSet id (items.map Prod.fst) :=
      mem_sortedSet.mpr (List.mem_map_of_mem member)
    rw [keys] at key
    cases key
  · rintro rfl
    rfl

theorem collected_eq_grouped (each : ∀ item ∈ items, item.2 ≠ []) :
    collected items = grouped (items.flatMap fun item => item.2.map (Prod.mk item.1)) := by
  have keys : sortedSet id (items.map Prod.fst) =
      sortedSet id ((items.flatMap fun item => item.2.map (Prod.mk item.1)).map Prod.fst) := by
    refine sortedSet_congr Function.injective_id fun k => ?_
    simp only [List.mem_map, List.mem_flatMap]
    constructor
    · rintro ⟨item, member, rfl⟩
      obtain ⟨m, inside⟩ := List.exists_mem_of_ne_nil _ (each item member)
      exact ⟨_, ⟨item, member, m, inside, rfl⟩, rfl⟩
    · rintro ⟨_, ⟨item, member, m, inside, rfl⟩, rfl⟩
      exact ⟨item, member, rfl⟩
  unfold collected grouped
  rw [keys]
  refine List.map_congr_left fun k _ => congrArg (Prod.mk k) ?_
  refine sortedSet_congr Function.injective_id fun m => ?_
  simp only [List.mem_map, List.mem_flatMap, List.mem_filter, decide_eq_true_eq]
  constructor
  · rintro ⟨item, ⟨member, rfl⟩, inside⟩
    exact ⟨_, ⟨⟨item, member, m, inside, rfl⟩, rfl⟩, rfl⟩
  · rintro ⟨_, ⟨⟨item, member, m, inside, rfl⟩, rfl⟩, rfl⟩
    exact ⟨item, ⟨member, rfl⟩, inside⟩

end ProofRay.Lib
