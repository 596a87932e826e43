/- Insertion-ordered dictionaries: updated in place when the key is known and extended at the end
   otherwise. -/

import Mathlib.Data.List.Nodup
import Mathlib.Data.List.Sort

namespace ProofRay.Lib

universe u v

/-- A dictionary iterates its items in the order of first insertion. -/
@[ext] structure Dict (κ : Type u) (α : Type v) where
  items : List (κ × α)
  nodup : (items.map Prod.fst).Nodup

namespace Dict

variable {κ : Type u} {α : Type v}

def empty : Dict κ α := ⟨[], List.nodup_nil⟩

def keys (d : Dict κ α) : List κ := d.items.map Prod.fst

variable [DecidableEq κ]

instance [DecidableEq α] : DecidableEq (Dict κ α) := fun d e =>
  decidable_of_iff (d.items = e.items) ⟨Dict.ext, congrArg Dict.items⟩

def lookupEntry (k : κ) : List (κ × α) → Option α
  | [] => none
  | (k', a) :: l => if k' = k then some a else lookupEntry k l

def putEntry (k : κ) (a : α) : List (κ × α) → List (κ × α)
  | [] => [(k, a)]
  | (k', a') :: l => if k' = k then (k', a) :: l else (k', a') :: putEntry k a l

def get (d : Dict κ α) (k : κ) : Option α := lookupEntry k d.items

private theorem keys_putEntry (k : κ) (a : α) (l : List (κ × α)) :
    (putEntry k a l).map Prod.fst =
      if k ∈ l.map Prod.fst then l.map Prod.fst else l.map Prod.fst ++ [k] := by
  induction l with
  | nil => simp [putEntry]
  | cons e l ih =>
    obtain ⟨k', a'⟩ := e
    by_cases same : k' = k
    · simp [putEntry, same]
    · have other : k ≠ k' := fun h => same h.symm
      simp only [putEntry, if_neg same, List.map_cons, ih, List.mem_cons, other, false_or]
      split <;> rfl

private theorem nodup_putEntry (k : κ) (a : α) (l : List (κ × α))
    (nodup : (l.map Prod.fst).Nodup) : ((putEntry k a l).map Prod.fst).Nodup := by
  rw [keys_putEntry]
  split
  · exact nodup
  · rename_i fresh
    exact List.Nodup.append nodup (List.nodup_singleton k) (by simpa using fresh)

def set (d : Dict κ α) (k : κ) (a : α) : Dict κ α :=
  ⟨putEntry k a d.items, nodup_putEntry k a d.items d.nodup⟩

@[simp] theorem get_empty (k : κ) : (empty : Dict κ α).get k = none := rfl

private theorem lookupEntry_putEntry (k k' : κ) (a : α) (l : List (κ × α)) :
    lookupEntry k' (putEntry k a l) = if k = k' then some a else lookupEntry k' l := by
  induction l with
  | nil => simp [putEntry, lookupEntry]
  | cons e l ih =>
    obtain ⟨j, b⟩ := e
    by_cases same : j = k
    · subst same
      by_cases hit : j = k' <;> simp [putEntry, lookupEntry, hit]
    · by_cases hit : j = k'
      · subst hit
        simp [putEntry, lookupEntry, same, Ne.symm same]
      · simp [putEntry, lookupEntry, same, hit, ih]

theorem get_set (d : Dict κ α) (k k' : κ) (a : α) :
    (d.set k a).get k' = if k = k' then some a else d.get k' :=
  lookupEntry_putEntry k k' a d.items

@[simp] theorem get_set_self (d : Dict κ α) (k : κ) (a : α) : (d.set k a).get k = some a := by
  rw [get_set, if_pos rfl]

theorem get_set_ne (d : Dict κ α) {k k' : κ} (a : α) (ne : k ≠ k') :
    (d.set k a).get k' = d.get k' := by
  rw [get_set, if_neg ne]

private theorem length_putEntry_le (k : κ) (a : α) (l : List (κ × α)) :
    (putEntry k a l).length ≤ l.length + 1 := by
  induction l with
  | nil => simp [putEntry]
  | cons e l ih =>
    unfold putEntry
    split
    · simp
    · simpa using ih

theorem length_keys_set_le (d : Dict κ α) (k : κ) (a : α) :
    (d.set k a).keys.length ≤ d.keys.length + 1 := by
  simpa [keys, set] using length_putEntry_le k a d.items

/-- `d.update(..)` with the pairs of a list, one after the other. -/
def update (d : Dict κ α) (l : List (κ × α)) : Dict κ α := l.foldl (fun d e => d.set e.1 e.2) d

@[simp] theorem update_nil (d : Dict κ α) : d.update [] = d := rfl

@[simp] theorem update_cons (d : Dict κ α) (e : κ × α) (l : List (κ × α)) :
    d.update (e :: l) = (d.set e.1 e.2).update l := rfl

variable {k : κ} {l : List (κ × α)} {d : Dict κ α}

theorem get_update_of_not_mem (absent : k ∉ l.map Prod.fst) : (d.update l).get k = d.get k := by
  induction l generalizing d with
  | nil => rfl
  | cons e l ih =>
    rw [List.map_cons, List.mem_cons, not_or] at absent
    rw [update_cons, ih absent.2, get_set_ne d e.2 (Ne.symm absent.1)]

variable {a : α}

theorem get_update_of_mem (nodup : (l.map Prod.fst).Nodup) (member : (k, a) ∈ l) :
    (d.update l).get k = some a := by
  induction l generalizing d with
  | nil => cases member
  | cons e l ih =>
    obtain ⟨fresh, nodup⟩ := List.nodup_cons.mp nodup
    rw [update_cons]
    rcases List.mem_cons.mp member with rfl | later
    · rw [get_update_of_not_mem fresh, get_set_self]
    · exact ih nodup later

theorem get_update_eq_some (found : (d.update l).get k = some a) :
    (k, a) ∈ l ∨ d.get k = some a := by
  induction l generalizing d with
  | nil => exact .inr found
  | cons e l ih =>
    rcases ih found with later | before
    · exact .inl (List.mem_cons_of_mem e later)
    · rw [get_set] at before
      split at before
      · rename_i same
        rw [Option.some.injEq] at before
        exact .inl (by rw [← same, ← before]; exact List.mem_cons_self)
      · exact .inr before

theorem get_update_eq_none : (d.update l).get k = none ↔ d.get k = none ∧ k ∉ l.map Prod.fst := by
  induction l generalizing d with
  | nil => simp
  | cons e l ih =>
    rw [update_cons, ih, get_set, List.map_cons, List.mem_cons]
    by_cases same : e.1 = k
    · simp [same]
    · simp [same, Ne.symm same]

theorem get_update_keyed {β : Type v} {key : β → κ} {d : Dict κ β} {l : List β}
    (nodup : (l.map key).Nodup) {b : β} :
    (d.update (l.map fun b => (key b, b))).get k = some b ↔
      (b ∈ l ∧ key b = k) ∨ (k ∉ l.map key ∧ d.get k = some b) := by
  have keys : (l.map fun b => (key b, b)).map Prod.fst = l.map key := by
    rw [List.map_map]
    rfl
  by_cases inside : k ∈ l.map key
  · obtain ⟨b', member, rfl⟩ := List.mem_map.mp inside
    have pair : (key b', b') ∈ l.map fun b => (key b, b) := List.mem_map.mpr ⟨b', member, rfl⟩
    rw [get_update_of_mem (keys ▸ nodup) pair]
    constructor
    · intro found
      obtain rfl := Option.some.inj found
      exact .inl ⟨member, rfl⟩
    · rintro (⟨member', same⟩ | ⟨outside, -⟩)
      · rw [List.inj_on_of_nodup_map nodup member' member same]
      · exact absurd inside outside
  · rw [get_update_of_not_mem (keys ▸ inside)]
    constructor
    · intro found
      exact .inr ⟨inside, found⟩
    · rintro (⟨member, rfl⟩ | ⟨-, found⟩)
      · exact absurd (List.mem_map_of_mem member) inside
      · exact found

def filterKeys (d : Dict κ α) (keep : κ → Bool) : Dict κ α :=
  ⟨d.items.filter fun e => keep e.1,
    d.nodup.sublist (List.Sublist.map Prod.fst List.filter_sublist)⟩

/-- `del d[k]`. -/
def erase (d : Dict κ α) (k : κ) : Dict κ α := d.filterKeys fun k' => k' ≠ k

private theorem lookupEntry_filter (keep : κ → Bool) (k : κ) (l : List (κ × α)) :
    lookupEntry k (l.filter fun e => keep e.1) = if keep k then lookupEntry k l else none := by
  induction l with
  | nil => simp [lookupEntry]
  | cons e l ih =>
    obtain ⟨j, b⟩ := e
    by_cases hit : j = k
    · subst hit
      by_cases kept : keep j
      · simp [lookupEntry, kept]
      · simp [ih, kept]
    · by_cases kept : keep j
      · simp [lookupEntry, kept, hit, ih]
      · simp [lookupEntry, kept, hit, ih]

theorem get_filterKeys (d : Dict κ α) (keep : κ → Bool) (k : κ) :
    (d.filterKeys keep).get k = if keep k then d.get k else none :=
  lookupEntry_filter keep k d.items

theorem get_erase (d : Dict κ α) (k k' : κ) :
    (d.erase k).get k' = if k' = k then none else d.get k' := by
  rw [erase, get_filterKeys]
  by_cases same : k' = k <;> simp [same]

private theorem lookupEntry_eq_some_iff (k : κ) (a : α) (l : List (κ × α))
    (nodup : (l.map Prod.fst).Nodup) : lookupEntry k l = some a ↔ (k, a) ∈ l := by
  induction l with
  | nil => simp [lookupEntry]
  | cons e l ih =>
    obtain ⟨j, b⟩ := e
    simp only [List.map_cons, List.nodup_cons] at nodup
    by_cases hit : j = k
    · subst hit
      have fresh : (j, a) ∉ l := fun member =>
        nodup.1 (List.mem_map.mpr ⟨(j, a), member, rfl⟩)
      simp [lookupEntry, fresh, eq_comm]
    · simp [lookupEntry, hit, ih nodup.2, Ne.symm hit]

theorem get_eq_some_iff (d : Dict κ α) (k : κ) (a : α) : d.get k = some a ↔ (k, a) ∈ d.items :=
  lookupEntry_eq_some_iff k a d.items d.nodup

theorem get_eq_none_iff (d : Dict κ α) (k : κ) : d.get k = none ↔ k ∉ d.keys := by
  constructor
  · intro absent member
    obtain ⟨⟨j, a⟩, inItems, rfl⟩ := List.mem_map.mp member
    have found := (d.get_eq_some_iff j a).mpr inItems
    rw [absent] at found
    cases found
  · intro fresh
    cases h : d.get k with
    | none => rfl
    | some a =>
      have inItems := (d.get_eq_some_iff k a).mp h
      exact absurd (List.mem_map.mpr ⟨(k, a), inItems, rfl⟩) fresh

theorem mem_keys_iff (d : Dict κ α) (k : κ) : k ∈ d.keys ↔ ∃ a, d.get k = some a := by
  rw [← not_iff_not, ← get_eq_none_iff, not_exists]
  exact Option.eq_none_iff_forall_ne_some

theorem items_perm {d e : Dict κ α} (same : ∀ k, d.get k = e.get k) : d.items.Perm e.items := by
  have nodup (f : Dict κ α) : f.items.Nodup := List.Nodup.of_map Prod.fst f.nodup
  rw [List.perm_ext_iff_of_nodup (nodup d) (nodup e)]
  rintro ⟨k, a⟩
  rw [← get_eq_some_iff, ← get_eq_some_iff, same]

theorem get_of_perm {d e : Dict κ α} (perm : d.items.Perm e.items) (k : κ) : d.get k = e.get k := by
  ext a
  rw [get_eq_some_iff, get_eq_some_iff]
  exact perm.mem_iff

section

variable {ο : Type u} [LinearOrder ο]

def sortedBy (rank : κ → ο) (d : Dict κ α) : List (κ × α) :=
  d.items.insertionSort fun a b => rank a.1 ≤ rank b.1

variable {rank : κ → ο}

theorem mem_sortedBy {d : Dict κ α} {e : κ × α} : e ∈ d.sortedBy rank ↔ d.get e.1 = some e.2 := by
  rw [sortedBy, (List.perm_insertionSort _ _).mem_iff, get_eq_some_iff]

theorem keys_sortedBy {β : Type v} (d : Dict ο β) :
    ((d.sortedBy id).map Prod.fst).Pairwise (· < ·) := by
  have perm : (d.sortedBy id).Perm d.items := List.perm_insertionSort _ _
  have rising : ((d.sortedBy id).map Prod.fst).Pairwise (· ≤ ·) :=
    List.pairwise_map.mpr (List.pairwise_insertionSort _ _)
  have distinct : ((d.sortedBy id).map Prod.fst).Nodup :=
    (perm.map Prod.fst).nodup_iff.mpr d.nodup
  exact (rising.and distinct).imp fun h => lt_of_le_of_ne h.1 h.2

theorem sortedBy_eq_iff (injective : Function.Injective rank) {d e : Dict κ α} :
    d.sortedBy rank = e.sortedBy rank ↔ ∀ k, d.get k = e.get k := by
  have perm (f : Dict κ α) : (f.sortedBy rank).Perm f.items := List.perm_insertionSort _ _
  constructor
  · intro same
    apply get_of_perm
    exact (perm d).symm.trans (same ▸ perm e)
  · intro same
    have shuffled : (d.sortedBy rank).Perm (e.sortedBy rank) :=
      (perm d).trans ((items_perm same).trans (perm e).symm)
    have sorted (f : Dict κ α) : (f.sortedBy rank).Pairwise fun a b => rank a.1 ≤ rank b.1 :=
      List.pairwise_insertionSort _ _
    refine shuffled.eq_of_pairwise ?_ (sorted d) (sorted e)
    rintro ⟨k, a⟩ ⟨j, b⟩ left right below above
    have key : k = j := injective (le_antisymm below above)
    subst key
    have first := (d.get_eq_some_iff k a).mpr ((perm d).mem_iff.mp left)
    have second := (e.get_eq_some_iff k b).mpr ((perm e).mem_iff.mp right)
    rw [same, second] at first
    rw [Option.some.inj first]

end

end Dict
end ProofRay.Lib
