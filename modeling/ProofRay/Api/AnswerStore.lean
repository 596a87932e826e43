/- The store of answers: entries expire with the time they were made, and the one used longest ago
   is given up when there are too many. -/

import ProofRay.Lib.Machine
import ProofRay.Lib.Recency

namespace ProofRay.Api

open Lib

universe u

structure Entry (ρ : Type u) where
  result : ρ
  created : Int
  polishedAnswer : Option String
  polishState : Option String

def storeTtlSeconds : Int := 3600

def storeMaxEntries : Nat := 1000

inductive StoreCall (ρ : Type u) where
  | store (answerId : String) (entry : Entry ρ)
  | load (answerId : String)

variable {ρ : Type u}

def StoreCall.answerId : StoreCall ρ → String
  | store answerId _ => answerId
  | load answerId => answerId

def pruneStore (store : Dict String (Entry ρ)) (now : Int) : Dict String (Entry ρ) :=
  (store.keep fun e => ¬now - e.2.created ≥ storeTtlSeconds).popTo storeMaxEntries

def storeAnswer (store : Dict String (Entry ρ)) (now : Int) (answerId : String) (entry : Entry ρ) :
    Dict String (Entry ρ) :=
  (pruneStore store now).toEnd answerId entry

def loadAnswer (store : Dict String (Entry ρ)) (now : Int) (answerId : String) :
    Dict String (Entry ρ) × Option (Entry ρ) :=
  match (pruneStore store now).get answerId with
  | none => (pruneStore store now, none)
  | some entry => ((pruneStore store now).toEnd answerId entry, some entry)

/-- The store under calls, each with what the clock shows. -/
def answerStore : Machine (Dict String (Entry ρ)) (Int × StoreCall ρ) (Option (Entry ρ)) where
  step store call :=
    match call.2 with
    | .store answerId entry => some (storeAnswer store call.1 answerId entry, none)
    | .load answerId => some (loadAnswer store call.1 answerId)

/-- A new answer finds room after the pruning, and an entry is stored at the time it was made. -/
def Meets (store : Dict String (Entry ρ)) (call : Int × StoreCall ρ) : Prop :=
  match call.2 with
  | .store answerId entry => entry.created = call.1 ∧
      (answerId ∈ (pruneStore store call.1).keys ∨
        (pruneStore store call.1).items.length < storeMaxEntries)
  | .load _ => True

/-- A call that stores an entry, or loads it. -/
def Uses (answerId : String) (entry : Entry ρ) (call : Int × StoreCall ρ)
    (answer : Option (Entry ρ)) : Prop :=
  call.2 = .store answerId entry ∨ call.2 = .load answerId ∧ answer = some entry

variable {s s' : Dict String (Entry ρ)} {call : Int × StoreCall ρ} {answer : Option (Entry ρ)}
  {answerId : String} {entry : Entry ρ} {now : Int} {later : Finset String}

variable {answers : List (Option (Entry ρ))} {p : String × Entry ρ}

theorem mem_pruneStore (member : p ∈ (pruneStore s now).items) :
    p ∈ s.items ∧ now - p.2.created < storeTtlSeconds := by
  rw [pruneStore, Dict.items_popTo, Dict.items_keep] at member
  have kept := List.mem_filter.mp (List.mem_of_mem_drop member)
  exact ⟨kept.1, by simpa using kept.2⟩

/-- A call moves the entry it uses to the end, after the pruning, or finds none. -/
theorem step_cases (stepped : answerStore.step s call = some (s', answer)) :
    (∃ entry, Uses call.2.answerId entry call answer ∧
      (call.2 = .load call.2.answerId → (pruneStore s call.1).get call.2.answerId = some entry) ∧
      s' = (pruneStore s call.1).toEnd call.2.answerId entry) ∨
    call.2 = .load call.2.answerId ∧ answer = none ∧
      (pruneStore s call.1).get call.2.answerId = none ∧ s' = pruneStore s call.1 := by
  obtain ⟨now, call⟩ := call
  cases call with
  | store id e =>
    obtain ⟨rfl, rfl⟩ := Prod.mk.inj (Option.some.inj stepped)
    exact .inl ⟨e, .inl rfl, nofun, rfl⟩
  | load id =>
    have stepped : loadAnswer s now id = (s', answer) := Option.some.inj stepped
    unfold loadAnswer at stepped
    split at stepped
    · rename_i none_left
      obtain ⟨rfl, rfl⟩ := Prod.mk.inj stepped
      exact .inr ⟨rfl, rfl, none_left, rfl⟩
    · rename_i e found
      obtain ⟨rfl, rfl⟩ := Prod.mk.inj stepped
      exact .inl ⟨e, .inr ⟨rfl, rfl⟩, fun _ => found, rfl⟩

theorem load_eq (stepped : answerStore.step s (now, .load answerId) = some (s', answer)) :
    answer = (pruneStore s now).get answerId := by
  rcases step_cases stepped with ⟨e, uses, known, -⟩ | ⟨-, rfl, none_left, -⟩
  · rcases uses with stores | ⟨-, rfl⟩
    · cases stores
    · exact (known rfl).symm
  · exact none_left.symm

/-- What a call leaves was there and has not expired, or is what it stores. -/
theorem mem_step (stepped : answerStore.step s call = some (s', answer)) (member : p ∈ s'.items) :
    p ∈ (pruneStore s call.1).items ∨ call.2 = .store p.1 p.2 := by
  rcases step_cases stepped with ⟨e, uses, known, rfl⟩ | ⟨-, -, -, rfl⟩
  · rw [Dict.items_toEnd] at member
    rcases List.mem_append.mp member with old | new
    · exact .inl (List.mem_filter.mp old).1
    · rw [List.mem_singleton.mp new]
      rcases uses with stores | ⟨loads, -⟩
      · exact .inr stores
      · exact .inl ((Dict.get_eq_some_iff _ _ _).mp (known loads))
  · exact .inl member

theorem length_step (meets : Meets s call) (stepped : answerStore.step s call = some (s', answer)) :
    s'.items.length ≤ storeMaxEntries := by
  have pruned : (pruneStore s call.1).items.length ≤ storeMaxEntries := Dict.length_popTo_le
  rcases step_cases stepped with ⟨e, uses, known, rfl⟩ | ⟨-, -, -, rfl⟩
  · rcases uses with stores | ⟨loads, -⟩
    · unfold Meets at meets
      rw [stores] at meets
      rcases meets.2 with inside | room
      · exact (Dict.length_toEnd_known inside).trans pruned
      · exact Dict.length_toEnd_le.trans room
    · have inside := (Dict.mem_keys_iff _ _).mpr ⟨e, known loads⟩
      exact (Dict.length_toEnd_known inside).trans pruned
  · exact pruned

theorem Held.prune (held : s.Held answerId entry later) (room : later.card < storeMaxEntries)
    (young : now - entry.created < storeTtlSeconds) :
    (pruneStore s now).Held answerId entry later :=
  (held.keep (by simpa using young)).popTo room

theorem held_of_uses (stepped : answerStore.step s call = some (s', answer))
    (uses : Uses answerId entry call answer) : s'.Held answerId entry ∅ := by
  have own : call.2.answerId = answerId := by
    rcases uses with stores | ⟨loads, -⟩
    · rw [stores]
      rfl
    · rw [loads]
      rfl
  rcases step_cases stepped with ⟨e, used, -, rfl⟩ | ⟨loads, rfl, -, -⟩
  · have same : e = entry := by
      rw [own] at used
      rcases uses, used with ⟨stores | ⟨loads, rfl⟩, stores' | ⟨loads', found⟩⟩
      · exact (StoreCall.store.inj (stores'.symm.trans stores)).2
      · cases stores.symm.trans loads'
      · cases stores'.symm.trans loads
      · exact (Option.some.inj found).symm
    rw [own, same]
    exact Dict.held_toEnd
  · rcases uses with stores | ⟨-, found⟩
    · cases loads.symm.trans stores
    · cases found

theorem held_step (held : s.Held answerId entry later) (other : call.2.answerId ≠ answerId)
    (room : (insert call.2.answerId later).card < storeMaxEntries)
    (young : call.1 - entry.created < storeTtlSeconds)
    (stepped : answerStore.step s call = some (s', answer)) :
    s'.Held answerId entry (insert call.2.answerId later) := by
  have more := Finset.subset_insert call.2.answerId later
  have pruned := Held.prune held ((Finset.card_le_card more).trans_lt room) young
  rcases step_cases stepped with ⟨e, -, -, rfl⟩ | ⟨-, -, -, rfl⟩
  · exact pruned.toEnd other
  · exact pruned.mono more

theorem held_run {since : List (Int × StoreCall ρ)} (held : s.Held answerId entry later)
    (others : ∀ c ∈ since, c.2.answerId ≠ answerId)
    (room : (later ∪ (since.map fun c => c.2.answerId).toFinset).card < storeMaxEntries)
    (young : ∀ c ∈ since, c.1 - entry.created < storeTtlSeconds)
    (ran : answerStore.run s since = some (s', answers)) :
    s'.Held answerId entry (later ∪ (since.map fun c => c.2.answerId).toFinset) := by
  induction since generalizing s later answers with
  | nil =>
    cases ran
    simpa using held
  | cons c since ih =>
    obtain ⟨next, r, rest, stepped, onward, -⟩ := answerStore.run_cons_eq_some.mp ran
    obtain ⟨other, others⟩ := List.forall_mem_cons.mp others
    obtain ⟨first, young⟩ := List.forall_mem_cons.mp young
    rw [List.map_cons, List.toFinset_cons, Finset.union_insert, ← Finset.insert_union] at room ⊢
    have fewer : (insert c.2.answerId later).card < storeMaxEntries :=
      (Finset.card_le_card Finset.subset_union_left).trans_lt room
    exact ih (held_step held other fewer first stepped) others room young onward

theorem stored_along {calls : List (Int × StoreCall ρ)} (met : answerStore.Along Meets s calls)
    (ran : answerStore.run s calls = some (s', answers)) :
    ∀ p ∈ s'.items, p ∈ s.items ∨ (p.2.created, .store p.1 p.2) ∈ calls := by
  induction calls generalizing s answers with
  | nil =>
    cases ran
    exact fun p member => .inl member
  | cons c calls ih =>
    obtain ⟨next, r, rest, stepped, onward, -⟩ := answerStore.run_cons_eq_some.mp ran
    intro p member
    rcases ih (met.2 next r stepped) onward p member with before | later
    · rcases mem_step stepped before with old | stores
      · exact .inl (mem_pruneStore old).1
      · have meets := met.1
        unfold Meets at meets
        rw [stores] at meets
        rw [meets.1, ← stores]
        exact .inr List.mem_cons_self
    · exact .inr (List.mem_cons_of_mem c later)

/-- Entries stamped with the time they are stored at, and room for each new one: then the store is
bounded, and every entry in it was stored at the time it bears.  Entries that are loaded are
younger than the limit, and one that is younger is loaded unless as many other answers as the store
holds were stored or loaded since it was used. -/
theorem answerStore_honest {before : List (Int × StoreCall ρ)}
    {answers : List (Option (Entry ρ))} (met : answerStore.Along Meets .empty before)
    (ran : answerStore.run .empty before = some (s, answers)) :
    s.items.length ≤ storeMaxEntries ∧
    (∀ p ∈ s.items, (p.2.created, .store p.1 p.2) ∈ before) ∧
    (∀ now answerId entry s', answerStore.step s (now, .load answerId) = some (s', some entry) →
      now - entry.created < storeTtlSeconds) ∧
    ∀ answerId entry use answer s₁ since answers' s₂ now found s₃,
      answerStore.step s use = some (s₁, answer) → Uses answerId entry use answer →
      answerStore.run s₁ since = some (s₂, answers') →
      answerStore.step s₂ (now, .load answerId) = some (s₃, found) →
      (∀ c ∈ since, c.1 ≤ now) → (∀ c ∈ since, c.2.answerId ≠ answerId) →
      (since.map fun c => c.2.answerId).toFinset.card < storeMaxEntries →
      now - entry.created < storeTtlSeconds → found = some entry := by
  have bounded : s.items.length ≤ storeMaxEntries :=
    Machine.invariant_along (I := fun s => s.items.length ≤ storeMaxEntries)
      (fun s e next r _ meets stepped => length_step meets stepped) (Nat.zero_le _) met ran
  refine ⟨bounded, ?_, ?_, ?_⟩
  · intro p member
    exact (stored_along met ran p member).resolve_left nofun
  · intro now answerId entry s' stepped
    exact (mem_pruneStore ((Dict.get_eq_some_iff _ _ _).mp (load_eq stepped).symm)).2
  · intro answerId entry use answer s₁ since answers' s₂ now found s₃ used uses onward loaded
      timely others room young
    have held := held_run (held_of_uses used uses) others (by rwa [Finset.empty_union])
      (fun c member => (Int.sub_le_sub_right (timely c member) _).trans_lt young) onward
    rw [Finset.empty_union] at held
    rw [load_eq loaded]
    exact (Held.prune held room young).get

def unitEntry : Entry Unit := ⟨(), 0, none, none⟩

theorem answerStore_honest_one : ∃ s, answerStore.run .empty [(0, .store "a" unitEntry)] =
    some (s, [none]) ∧ s.items.length ≤ storeMaxEntries := by
  have met : answerStore.Along Meets .empty [(0, .store "a" unitEntry)] :=
    ⟨⟨rfl, .inr (by decide)⟩, fun _ _ _ => trivial⟩
  exact ⟨_, rfl, (answerStore_honest met rfl).1⟩

theorem run_stores {ids : List String} (nodup : (s.keys ++ ids).Nodup)
    (stamped : ∀ p ∈ s.items, p.2.created = entry.created)
    (room : s.items.length + ids.length ≤ storeMaxEntries + 1) :
    ∃ s' answers, answerStore.run s (ids.map fun id => (entry.created, .store id entry)) =
      some (s', answers) ∧ s'.items.length = s.items.length + ids.length := by
  induction ids generalizing s with
  | nil => exact ⟨s, [], rfl, rfl⟩
  | cons id ids ih =>
    have all : (s.keep fun e => ¬entry.created - e.2.created ≥ storeTtlSeconds) = s := by
      refine Dict.ext (List.filter_eq_self.mpr fun p member => ?_)
      rw [stamped p member, Int.sub_self]
      decide
    rw [List.length_cons] at room
    have kept : pruneStore s entry.created = s := by
      rw [pruneStore, all, Dict.popTo_of_length_le (by omega)]
    have absent : id ∉ s.keys := fun inside =>
      (List.nodup_append.mp nodup).2.2 id inside id List.mem_cons_self rfl
    have items : (storeAnswer s entry.created id entry).items = s.items ++ [(id, entry)] := by
      rw [storeAnswer, kept, Dict.toEnd_absent ((s.get_eq_none_iff id).mpr absent),
        Dict.items_set_absent absent]
    have length : (storeAnswer s entry.created id entry).items.length = s.items.length + 1 := by
      rw [items, List.length_append, List.length_singleton]
    have nodup' : ((storeAnswer s entry.created id entry).keys ++ ids).Nodup := by
      rw [Dict.keys, items, List.map_append, List.append_assoc]
      exact nodup
    have stamped' : ∀ p ∈ (storeAnswer s entry.created id entry).items,
        p.2.created = entry.created := by
      intro p member
      rw [items] at member
      rcases List.mem_append.mp member with old | new
      · exact stamped p old
      · rw [List.mem_singleton.mp new]
    obtain ⟨s', answers, ran, total⟩ := ih nodup' stamped' (by omega)
    refine ⟨s', none :: answers, ?_, by rw [total, length, List.length_cons]; omega⟩
    exact answerStore.run_cons_eq_some.mpr ⟨_, none, answers, rfl, ran, rfl⟩

/-- Stores of new answers, all at one time, leave one entry more than there may be. -/
theorem not_answerStore_honest : ¬∀ (calls : List (Int × StoreCall Unit))
    (s : Dict String (Entry Unit)) (answers : List (Option (Entry Unit))),
    calls.Pairwise (fun c d => c.1 ≤ d.1) → answerStore.run .empty calls = some (s, answers) →
      s.items.length ≤ storeMaxEntries := by
  intro all
  have run_full (n : Nat) (fits : n ≤ storeMaxEntries + 1) : ∃ s answers,
      answerStore.run .empty ((someKeys n).map fun id => (0, .store id unitEntry)) =
        some (s, answers) ∧ s.items.length = 0 + (someKeys n).length :=
    @run_stores _ .empty unitEntry _ (nodup_someKeys n) (fun p member => nomatch member) (by
      rw [length_someKeys]
      exact (Nat.zero_add n).trans_le fits)
  obtain ⟨s, answers, ran, length⟩ := run_full (storeMaxEntries + 1) (le_refl _)
  have timely : ((someKeys (storeMaxEntries + 1)).map fun id =>
      ((0 : Int), StoreCall.store id unitEntry)).Pairwise fun c d => c.1 ≤ d.1 := by
    refine List.pairwise_map.mpr (List.pairwise_of_forall_mem_list fun _ _ _ _ => le_refl _)
  have bound := all _ s answers timely ran
  rw [length, length_someKeys, Nat.zero_add] at bound
  exact Nat.not_succ_le_self _ bound

end ProofRay.Api
