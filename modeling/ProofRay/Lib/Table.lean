/- Tables with a primary key: rows that no two have the same key, and the statements that keep them
   so. -/

import Mathlib.Data.List.Nodup

namespace ProofRay.Lib

universe u v

variable {ρ : Type u} {κ : Type v} {key : ρ → κ}

/-- Rows in the order of their insertion. -/
@[ext] structure Table (key : ρ → κ) where
  rows : List ρ
  distinct : (rows.map key).Nodup

namespace Table

def empty : Table key := ⟨[], List.nodup_nil⟩

instance [DecidableEq ρ] : DecidableEq (Table key) := fun t u =>
  decidable_of_iff (t.rows = u.rows) ⟨Table.ext, congrArg rows⟩

/-- `DELETE .. WHERE p`. -/
def delete (t : Table key) (p : ρ → Bool) : Table key :=
  ⟨t.rows.filter fun r => !p r, t.distinct.sublist (List.filter_sublist.map key)⟩

/-- `UPDATE ..`, where the key of a row stays. -/
def update (t : Table key) (f : ρ → ρ) (keeps : ∀ r, key (f r) = key r) : Table key :=
  ⟨t.rows.map f, by
    rw [List.map_map, show key ∘ f = key from funext keeps]
    exact t.distinct⟩

variable {r : ρ}

@[simp] theorem mem_delete (t : Table key) {p : ρ → Bool} :
    r ∈ (t.delete p).rows ↔ r ∈ t.rows ∧ p r = false := by
  simp [delete]

variable {f : ρ → ρ} {k : κ}

@[simp] theorem mem_update (t : Table key) {keeps : ∀ r, key (f r) = key r} :
    r ∈ (t.update f keeps).rows ↔ ∃ r' ∈ t.rows, f r' = r := by
  simp [update]

variable [DecidableEq κ]

/-- `SELECT .. WHERE key = k`. -/
def find (t : Table key) (k : κ) : Option ρ := t.rows.find? fun r => key r = k

/-- `INSERT`, which a row of the same key refuses. -/
def insert (t : Table key) (r : ρ) : Option (Table key) :=
  if fresh : key r ∉ t.rows.map key then
    some ⟨t.rows ++ [r], by
      rw [List.map_append]
      exact t.distinct.append (List.nodup_singleton _) (by simpa using fresh)⟩
  else none

private theorem map_key_write (r : ρ) (l : List ρ) :
    (l.map fun r' => if key r' = key r then r else r').map key = l.map key := by
  rw [List.map_map]
  refine List.map_congr_left fun r' _ => ?_
  show key (if key r' = key r then r else r') = key r'
  split
  · rename_i same
    exact same.symm
  · rfl

/-- `INSERT .. ON CONFLICT DO UPDATE` with every column of the row. -/
def upsert (t : Table key) (r : ρ) : Table key :=
  if taken : key r ∈ t.rows.map key then
    ⟨t.rows.map fun r' => if key r' = key r then r else r', by
      rw [map_key_write]
      exact t.distinct⟩
  else
    ⟨t.rows ++ [r], by
      rw [List.map_append]
      exact t.distinct.append (List.nodup_singleton _) (by simpa using taken)⟩

theorem find_eq_some_iff (t : Table key) : t.find k = some r ↔ r ∈ t.rows ∧ key r = k := by
  constructor
  · intro found
    have same := List.find?_some (show t.rows.find? (fun r => decide (key r = k)) = some r from found)
    exact ⟨List.mem_of_find?_eq_some found, of_decide_eq_true same⟩
  · rintro ⟨member, rfl⟩
    cases found : t.find (key r) with
    | none =>
      have absent := List.find?_eq_none.mp found r member
      simp at absent
    | some r' =>
      have member' := List.mem_of_find?_eq_some found
      have holds := List.find?_some
        (show t.rows.find? (fun r' => decide (key r' = key r)) = some r' from found)
      have same : key r' = key r := of_decide_eq_true holds
      rw [List.inj_on_of_nodup_map t.distinct member' member same]

theorem find_eq_none_iff (t : Table key) : t.find k = none ↔ ∀ r ∈ t.rows, key r ≠ k := by
  simp [find]

theorem insert_eq_some_iff (t : Table key) {t' : Table key} :
    t.insert r = some t' ↔ t.find (key r) = none ∧ t'.rows = t.rows ++ [r] := by
  have fresh : t.find (key r) = none ↔ key r ∉ t.rows.map key := by
    rw [find_eq_none_iff]
    simp
  unfold insert
  split
  · rename_i there
    rw [Option.some.injEq, fresh]
    exact ⟨fun same => ⟨there, same ▸ rfl⟩, fun same => Table.ext same.2.symm⟩
  · rename_i taken
    rw [fresh]
    exact ⟨nofun, fun same => absurd same.1 taken⟩

theorem exists_insert (t : Table key) (fresh : t.find (key r) = none) :
    ∃ t', t.insert r = some t' ∧ t'.rows = t.rows ++ [r] := by
  cases inserted : t.insert r with
  | none =>
    unfold insert at inserted
    split at inserted
    · cases inserted
    · rename_i taken
      obtain ⟨r', member, same⟩ := List.mem_map.mp (not_not.mp taken)
      exact absurd same ((t.find_eq_none_iff).mp fresh r' member)
  | some t' => exact ⟨t', rfl, ((t.insert_eq_some_iff).mp inserted).2⟩

theorem find_update (t : Table key) {keeps : ∀ r, key (f r) = key r} (k : κ) :
    (t.update f keeps).find k = (t.find k).map f := by
  rw [find, update, List.find?_map, find]
  congr 2
  exact funext fun r => by simp [keeps]

theorem mem_upsert (t : Table key) {r r' : ρ} :
    r' ∈ (t.upsert r).rows ↔ r' = r ∨ (r' ∈ t.rows ∧ key r' ≠ key r) := by
  unfold upsert
  split
  · rename_i taken
    obtain ⟨old, member, same⟩ := List.mem_map.mp taken
    simp only [List.mem_map]
    constructor
    · rintro ⟨other, there, rfl⟩
      split
      · exact .inl rfl
      · rename_i apart
        exact .inr ⟨there, apart⟩
    · rintro (rfl | ⟨there, apart⟩)
      · exact ⟨old, member, if_pos same⟩
      · exact ⟨r', there, if_neg apart⟩
  · rename_i fresh
    simp only [List.mem_append, List.mem_singleton]
    constructor
    · rintro (there | rfl)
      · exact .inr ⟨there, fun same => fresh (same ▸ List.mem_map_of_mem there)⟩
      · exact .inl rfl
    · rintro (rfl | ⟨there, -⟩)
      · exact .inr rfl
      · exact .inl there

theorem find_upsert (t : Table key) (r : ρ) (k : κ) :
    (t.upsert r).find k = if key r = k then some r else t.find k := by
  have held : (t.upsert r).find (key r) = some r :=
    ((t.upsert r).find_eq_some_iff).mpr ⟨(t.mem_upsert).mpr (.inl rfl), rfl⟩
  split
  · rename_i same
    rw [← same, held]
  · rename_i other
    ext r'
    rw [find_eq_some_iff, find_eq_some_iff, mem_upsert]
    constructor
    · rintro ⟨rfl | ⟨member, -⟩, rfl⟩
      · exact absurd rfl other
      · exact ⟨member, rfl⟩
    · rintro ⟨member, rfl⟩
      exact ⟨.inr ⟨member, fun same => other same.symm⟩, rfl⟩

end Table

end ProofRay.Lib
