/- Dictionaries kept in the order of last use and cut down from the front. -/

import Mathlib.Data.Finset.Card
import ProofRay.Lib.Dict

namespace ProofRay.Lib.Dict

universe u v

variable {κ : Type u} {α : Type v}

/-- `while len(d) > n: d.popitem(last=False)`. -/
def popTo (n : Nat) (d : Dict κ α) : Dict κ α :=
  ⟨d.items.drop (d.items.length - n), d.nodup.sublist ((List.drop_sublist _ _).map _)⟩

def keep (d : Dict κ α) (p : κ × α → Bool) : Dict κ α :=
  ⟨d.items.filter p, d.nodup.sublist (List.filter_sublist.map _)⟩

def Held (d : Dict κ α) (k : κ) (a : α) (later : Finset κ) : Prop :=
  ∃ front back, d.items = front ++ (k, a) :: back ∧ ∀ e ∈ back, e.1 ∈ later

variable {d : Dict κ α} {k k' : κ} {a b : α} {n : Nat} {later : Finset κ}

theorem items_popTo : (d.popTo n).items = d.items.drop (d.items.length - n) := rfl

variable {p : κ × α → Bool}

theorem items_keep : (d.keep p).items = d.items.filter p := rfl

theorem length_popTo_le : (d.popTo n).items.length ≤ n := by
  rw [items_popTo, List.length_drop]
  omega

theorem popTo_of_length_le (few : d.items.length ≤ n) : d.popTo n = d := by
  apply Dict.ext
  rw [items_popTo, Nat.sub_eq_zero_of_le few, List.drop_zero]

theorem Held.keep (held : d.Held k a later) (stays : p (k, a) = true) :
    (d.keep p).Held k a later := by
  obtain ⟨front, back, items, inside⟩ := held
  refine ⟨front.filter p, back.filter p, ?_, fun e member => inside e (List.mem_filter.mp member).1⟩
  rw [items_keep, items, List.filter_append, List.filter_cons_of_pos stays]

theorem Held.mono {more : Finset κ} (held : d.Held k a later) (fewer : later ⊆ more) :
    d.Held k a more := by
  obtain ⟨front, back, items, inside⟩ := held
  exact ⟨front, back, items, fun e member => fewer (inside e member)⟩

variable [DecidableEq κ]

/-- `d[k] = a; d.move_to_end(k)`. -/
def toEnd (d : Dict κ α) (k : κ) (a : α) : Dict κ α := (d.erase k).set k a

private theorem putEntry_absent {l : List (κ × α)} (absent : k ∉ l.map Prod.fst) :
    putEntry k a l = l ++ [(k, a)] := by
  induction l with
  | nil => rfl
  | cons e l ih =>
    rw [List.map_cons, List.mem_cons, not_or] at absent
    rw [putEntry, if_neg (Ne.symm absent.1), ih absent.2]
    rfl

theorem items_set_absent (absent : k ∉ d.keys) : (d.set k a).items = d.items ++ [(k, a)] :=
  putEntry_absent absent

theorem items_toEnd : (d.toEnd k a).items = (d.items.filter fun e => e.1 ≠ k) ++ [(k, a)] := by
  refine putEntry_absent fun inside => ?_
  obtain ⟨e, member, same⟩ := List.mem_map.mp inside
  exact of_decide_eq_true (List.mem_filter.mp member).2 same

theorem toEnd_absent (absent : d.get k = none) : d.toEnd k a = d.set k a := by
  have known := (d.get_eq_none_iff k).mp absent
  refine Dict.ext ?_
  rw [items_toEnd, items_set_absent known, List.filter_eq_self.mpr]
  intro e member
  refine decide_eq_true fun same => known ?_
  exact same ▸ List.mem_map_of_mem member

theorem get_of_popTo (found : (d.popTo n).get k = some a) : d.get k = some a := by
  rw [get_eq_some_iff] at found ⊢
  exact List.mem_of_mem_drop found

theorem length_toEnd_le : (d.toEnd k a).items.length ≤ d.items.length + 1 := by
  rw [items_toEnd, List.length_append, List.length_singleton]
  exact Nat.succ_le_succ (List.length_filter_le _ _)

theorem length_toEnd_known (known : k ∈ d.keys) : (d.toEnd k a).items.length ≤ d.items.length := by
  obtain ⟨e, member, same⟩ := List.mem_map.mp known
  rw [items_toEnd, List.length_append, List.length_singleton]
  exact List.length_filter_lt_length_iff_exists.mpr ⟨e, member, by simp [same]⟩

theorem Held.get (held : d.Held k a later) : d.get k = some a := by
  obtain ⟨front, back, items, -⟩ := held
  rw [get_eq_some_iff, items]
  exact List.mem_append_right _ List.mem_cons_self

theorem held_toEnd : (d.toEnd k a).Held k a ∅ :=
  ⟨_, [], items_toEnd, nofun⟩

theorem Held.toEnd (held : d.Held k a later) (other : k' ≠ k) :
    (d.toEnd k' b).Held k a (insert k' later) := by
  obtain ⟨front, back, items, inside⟩ := held
  refine ⟨front.filter fun e => e.1 ≠ k', (back.filter fun e => e.1 ≠ k') ++ [(k', b)], ?_, ?_⟩
  · rw [items_toEnd, items, List.filter_append,
      List.filter_cons_of_pos (by simpa using Ne.symm other), List.append_assoc, List.cons_append]
  · intro e member
    rcases List.mem_append.mp member with old | new
    · exact Finset.mem_insert_of_mem (inside e (List.mem_filter.mp old).1)
    · rw [List.mem_singleton.mp new]
      exact Finset.mem_insert_self k' later

theorem Held.popTo (held : d.Held k a later) (room : later.card < n) :
    (d.popTo n).Held k a later := by
  obtain ⟨front, back, items, inside⟩ := held
  have nodup : (back.map Prod.fst).Nodup := by
    refine d.nodup.sublist (List.Sublist.map _ ?_)
    rw [items]
    exact (List.sublist_cons_self _ _).trans (List.sublist_append_right _ _)
  have few : back.length ≤ later.card := by
    rw [← List.length_map Prod.fst, ← List.toFinset_card_of_nodup nodup]
    refine Finset.card_le_card fun key member => ?_
    obtain ⟨e, there, rfl⟩ := List.mem_map.mp (List.mem_toFinset.mp member)
    exact inside e there
  refine ⟨front.drop (d.items.length - n), back, ?_, inside⟩
  have fits : d.items.length - n ≤ front.length := by
    rw [items, List.length_append, List.length_cons]
    omega
  rw [items_popTo, ← List.drop_append_of_le_length fits, ← items]

end ProofRay.Lib.Dict

namespace ProofRay.Lib

def someKeys (n : Nat) : List String :=
  (List.range n).map fun i => String.ofList (List.replicate (i + 1) 'x')

@[simp] theorem length_someKeys (n : Nat) : (someKeys n).length = n := by
  rw [someKeys, List.length_map, List.length_range]

theorem nodup_someKeys (n : Nat) : (someKeys n).Nodup := by
  refine List.Nodup.map (fun i j same => ?_) List.nodup_range
  have lengths := congrArg (fun key => key.toList.length) same
  simpa using lengths

theorem empty_notMem_someKeys (n : Nat) : "" ∉ someKeys n := by
  intro inside
  obtain ⟨i, -, same⟩ := List.mem_map.mp inside
  have lengths := congrArg (fun key => key.toList.length) same
  simp at lengths

end ProofRay.Lib
