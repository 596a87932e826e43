/- The weight of a dictionary: the sum of the weights of what it holds, and how it differs between
   two dictionaries that agree but for some keys. -/

import Mathlib.Algebra.BigOperators.Group.List.Basic
import Mathlib.Algebra.GroupWithZero.Nat
import ProofRay.Lib.Dict

namespace ProofRay.Lib.Dict

universe u v

variable {κ : Type u} {α : Type v}

def weigh (w : α → Nat) (d : Dict κ α) : Nat := (d.items.map fun e => w e.2).sum

variable [DecidableEq κ] {w : α → Nat} {d e : Dict κ α}

def weightAt (w : α → Nat) (d : Dict κ α) (k : κ) : Nat := ((d.get k).map w).getD 0

theorem weigh_congr (same : ∀ k, d.get k = e.get k) : d.weigh w = e.weigh w :=
  ((items_perm same).map _).sum_eq

theorem weightAt_congr {k : κ} (same : d.get k = e.get k) : d.weightAt w k = e.weightAt w k := by
  rw [weightAt, weightAt, same]

theorem weigh_erase (d : Dict κ α) (k : κ) : d.weigh w = d.weightAt w k + (d.erase k).weigh w := by
  obtain ⟨items, nodup⟩ := d
  unfold weigh weightAt erase filterKeys get
  simp only
  induction items with
  | nil => rfl
  | cons entry items ih =>
    obtain ⟨k', a⟩ := entry
    obtain ⟨fresh, nodup⟩ := List.nodup_cons.mp nodup
    by_cases same : k' = k
    · subst same
      have others : items.filter (fun e => decide (e.1 ≠ k')) = items := by
        refine List.filter_eq_self.mpr fun e member => decide_eq_true fun same => fresh ?_
        exact List.mem_map.mpr ⟨e, member, same⟩
      rw [List.map_cons, List.sum_cons, List.filter_cons_of_neg (by simp), others]
      simp [lookupEntry]
    · have rest := ih nodup
      simp only [lookupEntry, same, if_false, List.map_cons, List.sum_cons, ne_eq, decide_not,
        List.filter_cons, decide_false, Bool.not_false, if_true] at rest ⊢
      omega

variable {ks : List κ}

theorem weigh_filterKeys (d : Dict κ α) (nodup : ks.Nodup) :
    d.weigh w = (ks.map (d.weightAt w)).sum + (d.filterKeys fun k => k ∉ ks).weigh w := by
  induction ks generalizing d with
  | nil =>
    rw [List.map_nil, List.sum_nil, Nat.zero_add]
    refine weigh_congr fun k => ?_
    rw [get_filterKeys, if_pos (by simp)]
  | cons k ks ih =>
    obtain ⟨fresh, nodup⟩ := List.nodup_cons.mp nodup
    have others : ks.map ((d.erase k).weightAt w) = ks.map (d.weightAt w) := by
      refine List.map_congr_left fun k' member => weightAt_congr ?_
      rw [get_erase, if_neg]
      rintro rfl
      exact fresh member
    have left : ((d.erase k).filterKeys fun k' => k' ∉ ks).weigh w =
        (d.filterKeys fun k' => k' ∉ k :: ks).weigh w := by
      refine weigh_congr fun k' => ?_
      rw [get_filterKeys, get_filterKeys, get_erase]
      by_cases same : k' = k <;> simp [same]
    rw [weigh_erase d k, ih (d.erase k) nodup, others, left, List.map_cons, List.sum_cons]
    omega

theorem weigh_differ (nodup : ks.Nodup) (same : ∀ k, k ∉ ks → e.get k = d.get k) :
    e.weigh w + (ks.map (d.weightAt w)).sum = d.weigh w + (ks.map (e.weightAt w)).sum := by
  have others : (e.filterKeys fun k => k ∉ ks).weigh w = (d.filterKeys fun k => k ∉ ks).weigh w := by
    refine weigh_congr fun k => ?_
    rw [get_filterKeys, get_filterKeys]
    by_cases inside : k ∈ ks
    · simp [inside]
    · rw [same k inside]
  rw [weigh_filterKeys e nodup, weigh_filterKeys d nodup, others]
  omega

end ProofRay.Lib.Dict
