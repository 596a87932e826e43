/- Running states kept instant by instant: one run goes through the rows, and the state after each
   instant is looked up at any clock. -/

import Mathlib.Data.List.Induction
import Mathlib.Data.List.TakeWhile
import ProofRay.Lib.Dict
import ProofRay.Lib.Rank

namespace ProofRay.Lib

universe u v w

variable {α : Type u} {κ : Type v} {σ : Type w}

section

variable [DecidableEq κ]

/-- `by_key.setdefault(key(row), []).append(row)`, row by row. -/
def Dict.gather (key : α → κ) (rows : List α) : Dict κ (List α) :=
  rows.foldl (fun d row => d.set (key row) ((d.get (key row)).getD [] ++ [row])) Dict.empty

theorem Dict.get_gather (key : α → κ) (rows : List α) (k : κ) :
    (Dict.gather key rows).get k =
      if k ∈ rows.map key then some (rows.filter fun row => key row = k) else none := by
  induction rows using List.reverseRecOn with
  | nil => rfl
  | append_singleton rows row ih =>
    have there : Dict.gather key (rows ++ [row]) =
        (Dict.gather key rows).set (key row)
          (((Dict.gather key rows).get (key row)).getD [] ++ [row]) := by
      simp [Dict.gather, List.foldl_append]
    rw [there, Dict.get_set]
    by_cases same : key row = k
    · subst same
      rw [if_pos rfl, ih]
      by_cases before : key row ∈ rows.map key
      · simp [before]
      · have none_before : rows.filter (fun other => key other = key row) = [] := by
          rw [List.filter_eq_nil_iff]
          intro other member equal
          exact before (List.mem_map.mpr ⟨other, member, of_decide_eq_true equal⟩)
        simp [before, none_before]
    · rw [if_neg same, ih]
      have elsewhere : k ≠ key row := fun equal => same equal.symm
      simp [same, elsewhere]

end

def stages (step : σ → α → σ) : σ → List (κ × List α) → List (κ × σ)
  | _, [] => []
  | s, (k, rows) :: rest => (k, rows.foldl step s) :: stages step (rows.foldl step s) rest

theorem keys_stages (step : σ → α → σ) (s : σ) (groups : List (κ × List α)) :
    (stages step s groups).map Prod.fst = groups.map Prod.fst := by
  induction groups generalizing s with
  | nil => rfl
  | cons group rest ih => simp [stages, ih]

theorem getElem?_stages (step : σ → α → σ) (s : σ) (groups : List (κ × List α)) (i : Nat) :
    (stages step s groups)[i]? = groups[i]?.map fun group =>
      (group.1, ((groups.take (i + 1)).flatMap Prod.snd).foldl step s) := by
  induction groups generalizing s i with
  | nil => rfl
  | cons group rest ih =>
    cases i with
    | zero => simp [stages]
    | succ i => simp [stages, ih, List.foldl_append]

section

variable [LinearOrder κ]

def timeline (key : α → κ) (step : σ → α → σ) (s : σ) (rows : List α) : List (κ × σ) :=
  stages step s ((Dict.gather key rows).sortedBy id)

variable {key : α → κ} {step : σ → α → σ} {s : σ} {rows : List α}

theorem keys_timeline :
    (timeline key step s rows).map Prod.fst = ((Dict.gather key rows).sortedBy id).map Prod.fst :=
  keys_stages _ _ _

theorem mem_groups {group : κ × List α} : group ∈ (Dict.gather key rows).sortedBy id ↔
    group.1 ∈ rows.map key ∧ group.2 = rows.filter fun row => key row = group.1 := by
  rw [Dict.mem_sortedBy, Dict.get_gather]
  split
  · rename_i known
    simp [known, eq_comm]
  · rename_i unknown
    simp [unknown]

variable {groups : List (κ × List α)} {instants : List κ}

theorem mem_flatMap_groups (known : ∀ group ∈ groups, group ∈ (Dict.gather key rows).sortedBy id)
    {row : α} : row ∈ groups.flatMap Prod.snd ↔ row ∈ rows ∧ key row ∈ groups.map Prod.fst := by
  constructor
  · intro member
    obtain ⟨group, inside, member⟩ := List.mem_flatMap.mp member
    rw [(mem_groups.mp (known group inside)).2] at member
    obtain ⟨member, equal⟩ := List.mem_filter.mp member
    exact ⟨member, List.mem_map.mpr ⟨group, inside, (of_decide_eq_true equal).symm⟩⟩
  · rintro ⟨member, inside⟩
    obtain ⟨group, inside, equal⟩ := List.mem_map.mp inside
    refine List.mem_flatMap.mpr ⟨group, inside, ?_⟩
    rw [(mem_groups.mp (known group inside)).2]
    exact List.mem_filter.mpr ⟨member, decide_eq_true equal.symm⟩

theorem nodup_flatMap_groups (known : ∀ group ∈ groups, group ∈ (Dict.gather key rows).sortedBy id)
    (sorted : (groups.map Prod.fst).Pairwise (· < ·)) (nodup : rows.Nodup) :
    (groups.flatMap Prod.snd).Nodup := by
  rw [List.nodup_flatMap]
  refine ⟨fun group inside => ?_, ?_⟩
  · rw [(mem_groups.mp (known group inside)).2]
    exact nodup.filter _
  · rw [List.pairwise_map] at sorted
    refine sorted.imp_of_mem fun {a b} ina inb less => ?_
    intro row first second
    rw [(mem_groups.mp (known _ ina)).2] at first
    rw [(mem_groups.mp (known _ inb)).2] at second
    have left := of_decide_eq_true (List.mem_filter.mp first).2
    have right := of_decide_eq_true (List.mem_filter.mp second).2
    exact absurd (left.symm.trans right) less.ne

def reached (instants : List κ) (clock : Option κ) : Nat :=
  clock.elim instants.length (bisectRight instants)

theorem reached_le_length (sorted : instants.Pairwise (· < ·)) (clock : Option κ) :
    reached instants clock ≤ instants.length := by
  cases clock with
  | none => exact le_rfl
  | some k =>
    simp only [reached, Option.elim_some, bisectRight_eq (sorted.imp le_of_lt)]
    exact rank_le_length _ _

theorem mem_take_reached (sorted : instants.Pairwise (· < ·)) {clock : Option κ} {k : κ} :
    k ∈ instants.take (reached instants clock) ↔ k ∈ instants ∧ clock.all fun t => k ≤ t := by
  cases clock with
  | none => simp [reached]
  | some t =>
    have ordered : instants.Pairwise (· ≤ ·) := sorted.imp le_of_lt
    simp only [reached, Option.elim_some, bisectRight_eq ordered, Option.all_some,
      decide_eq_true_eq]
    constructor
    · intro member
      obtain ⟨i, found⟩ := List.mem_iff_getElem?.mp member
      rw [List.getElem?_take] at found
      split at found
      · rename_i inside
        exact ⟨List.mem_of_getElem? found, (le_iff_lt_rank ordered found).mpr inside⟩
      · cases found
    · rintro ⟨member, early⟩
      obtain ⟨i, found⟩ := List.mem_iff_getElem?.mp member
      have inside := (le_iff_lt_rank ordered found).mp early
      refine List.mem_of_getElem? (i := i) ?_
      rw [List.getElem?_take, if_pos inside, found]

def stateAt (table : List (κ × σ)) (clock : Option κ) : Option σ :=
  match reached (table.map Prod.fst) clock with
  | 0 => none
  | position + 1 => (table[position]?).map Prod.snd

/-- What a clock finds in a table is the state after exactly the rows up to the clock, and nothing
only where there is no such row. -/
theorem stateAt_timeline (key : α → κ) (step : σ → α → σ) (s : σ) (rows : List α)
    (clock : Option κ) :
    ∃ seen : List α, (∀ row, row ∈ seen ↔ row ∈ rows ∧ clock.all fun k => key row ≤ k) ∧
      (rows.Nodup → seen.Nodup) ∧
      (stateAt (timeline key step s rows) clock = none ∧ seen = [] ∨
        stateAt (timeline key step s rows) clock = some (seen.foldl step s)) := by
  set groups := (Dict.gather key rows).sortedBy id with groups_def
  have sorted : (groups.map Prod.fst).Pairwise (· < ·) := Dict.keys_sortedBy _
  set count := reached (groups.map Prod.fst) clock with count_def
  have taken : ∀ group ∈ groups.take count, group ∈ groups := fun _ => List.mem_of_mem_take
  have sorted_taken : ((groups.take count).map Prod.fst).Pairwise (· < ·) := by
    rw [List.map_take]
    exact sorted.sublist (List.take_sublist _ _)
  refine ⟨(groups.take count).flatMap Prod.snd, fun row => ?_,
    fun nodup => nodup_flatMap_groups taken sorted_taken nodup, ?_⟩
  · rw [mem_flatMap_groups taken, List.map_take, mem_take_reached sorted]
    constructor
    · rintro ⟨member, -, early⟩
      exact ⟨member, early⟩
    · rintro ⟨member, early⟩
      refine ⟨member, ?_, early⟩
      exact List.mem_map.mpr ⟨(key row, rows.filter fun other => key other = key row),
        mem_groups.mpr ⟨List.mem_map_of_mem member, rfl⟩, rfl⟩
  · have bound : count ≤ groups.length := by
      simpa using reached_le_length sorted clock
    unfold stateAt
    rw [keys_timeline, ← groups_def, ← count_def]
    cases counted : count with
    | zero => exact .inl ⟨rfl, by simp⟩
    | succ position =>
      have inside : position < groups.length := by omega
      right
      simp only [timeline, ← groups_def, getElem?_stages, List.getElem?_eq_getElem inside,
        Option.map_some]

end

section

variable {μ : Type w} [LinearOrder μ] {rank : α → μ}

/-- One row more: a better rank than the best so far begins anew, the same rank joins. -/
def compete (rank : α → μ) (best : Option (μ × List α)) (row : α) : Option (μ × List α) :=
  match best with
  | none => some (rank row, [row])
  | some (most, rows) =>
    if most < rank row then some (rank row, [row])
    else if rank row = most then some (most, rows ++ [row])
    else some (most, rows)

def leaders (best : Option (μ × List α)) : List α := best.elim [] Prod.snd

/-- What a contest knows of the rows it has seen. -/
structure Contest (rank : α → μ) (seen : List α) (most : μ) (rows : List α) : Prop where
  bound : ∀ row ∈ seen, rank row ≤ most
  sublist : rows.Sublist seen
  mem : ∀ row, row ∈ rows ↔ row ∈ seen ∧ rank row = most
  reached : ∃ row ∈ seen, rank row = most

theorem contest_compete {seen : List α} {most : μ} {rows : List α}
    (contest : Contest rank seen most rows) (row : α) :
    ∃ most' rows', compete rank (some (most, rows)) row = some (most', rows') ∧
      Contest rank (seen ++ [row]) most' rows' := by
  unfold compete
  obtain ⟨leader, led, top⟩ := contest.reached
  by_cases better : most < rank row
  · refine ⟨rank row, [row], by simp [better], ?_, List.sublist_append_right _ _, ?_,
      row, by simp, rfl⟩
    · intro other member
      rcases List.mem_append.mp member with old | new
      · exact (contest.bound other old).trans better.le
      · rw [List.mem_singleton.mp new]
    · intro other
      simp only [List.mem_singleton, List.mem_append]
      constructor
      · rintro rfl
        exact ⟨.inr rfl, rfl⟩
      · rintro ⟨old | new, equal⟩
        · exact absurd (contest.bound other old) (not_le.mpr (equal ▸ better))
        · exact new
  · have below : rank row ≤ most := not_lt.mp better
    have bound : ∀ other ∈ seen ++ [row], rank other ≤ most := by
      intro other member
      rcases List.mem_append.mp member with old | new
      · exact contest.bound other old
      · rw [List.mem_singleton.mp new]
        exact below
    have reached : ∃ other ∈ seen ++ [row], rank other = most :=
      ⟨leader, List.mem_append_left _ led, top⟩
    by_cases same : rank row = most
    · refine ⟨most, rows ++ [row], by simp [same],
        bound, contest.sublist.append (List.Sublist.refl _), fun other => ?_, reached⟩
      simp only [List.mem_append, List.mem_singleton, contest.mem]
      constructor
      · rintro (⟨old, equal⟩ | rfl)
        · exact ⟨.inl old, equal⟩
        · exact ⟨.inr rfl, same⟩
      · rintro ⟨old | new, equal⟩
        · exact .inl ⟨old, equal⟩
        · exact .inr new
    · refine ⟨most, rows, by simp [better, same],
        bound, contest.sublist.trans (List.sublist_append_left _ _), fun other => ?_, reached⟩
      simp only [List.mem_append, List.mem_singleton, contest.mem]
      constructor
      · rintro ⟨old, equal⟩
        exact ⟨.inl old, equal⟩
      · rintro ⟨old | rfl, equal⟩
        · exact ⟨old, equal⟩
        · exact absurd equal same

theorem contest_foldl (rank : α → μ) (rows : List α) :
    rows = [] ∧ rows.foldl (compete rank) none = none ∨
      ∃ most best, rows.foldl (compete rank) none = some (most, best) ∧
        Contest rank rows most best := by
  induction rows using List.reverseRecOn with
  | nil => exact .inl ⟨rfl, rfl⟩
  | append_singleton rows row ih =>
    right
    rw [List.foldl_append, List.foldl_cons, List.foldl_nil]
    rcases ih with ⟨rfl, fresh⟩ | ⟨most, best, known, contest⟩
    · rw [fresh]
      exact ⟨rank row, [row], rfl, by simp, by simp, by simp, row, by simp, rfl⟩
    · rw [known]
      exact contest_compete contest row

theorem mem_leaders {rows : List α} {row : α} :
    row ∈ leaders (rows.foldl (compete rank) none) ↔
      row ∈ rows ∧ ∀ other ∈ rows, rank other ≤ rank row := by
  rcases contest_foldl rank rows with ⟨rfl, fresh⟩ | ⟨most, best, known, contest⟩
  · simp [leaders]
  · rw [known]
    simp only [leaders, Option.elim_some, contest.mem]
    obtain ⟨leader, led, top⟩ := contest.reached
    constructor
    · rintro ⟨member, equal⟩
      exact ⟨member, fun other inside => (contest.bound other inside).trans equal.ge⟩
    · rintro ⟨member, best⟩
      exact ⟨member, le_antisymm (contest.bound row member) (top ▸ best leader led)⟩

theorem nodup_leaders {rows : List α} (nodup : rows.Nodup) :
    (leaders (rows.foldl (compete rank) none)).Nodup := by
  rcases contest_foldl rank rows with ⟨rfl, fresh⟩ | ⟨most, best, known, contest⟩
  · exact List.nodup_nil
  · rw [known]
    exact contest.sublist.nodup nodup

end

end ProofRay.Lib
