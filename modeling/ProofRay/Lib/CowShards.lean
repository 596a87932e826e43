/- Copy-on-write shards: a builder copies a shard at its first write to it, and the index frozen
   from it shares all the others.  Beside it, the plain index, cloned whole. -/

import Mathlib.Data.List.Perm.Basic
import ProofRay.Lib.Dict
import ProofRay.Lib.Machine

namespace ProofRay.Lib.CowShards

open Option (getD_some map_eq_some_iff map_some none_or some_or)

universe u v w x y z

variable {κ : Type u} {α : Type v} {π : Type w} {ρ : Type x} {χ : Type y} {ω : Type z}

def objectAt (blank : ω) (objects : List ω) (o : Nat) : ω := objects.getD o blank

section

variable (blank : ω) (objects : List ω)

theorem objectAt_append_left (more : List ω) {o : Nat} (inside : o < objects.length) :
    objectAt blank (objects ++ more) o = objectAt blank objects o := by
  rw [objectAt, objectAt, List.getD_eq_getElem?_getD, List.getD_eq_getElem?_getD,
    List.getElem?_append_left inside]

theorem objectAt_append_self (new : ω) :
    objectAt blank (objects ++ [new]) objects.length = new := by
  simp [objectAt]

theorem objectAt_set_self {o : Nat} (inside : o < objects.length) (new : ω) :
    objectAt blank (objects.set o new) o = new := by
  simp [objectAt, inside]

theorem objectAt_set_ne {o o' : Nat} (ne : o' ≠ o) (new : ω) :
    objectAt blank (objects.set o new) o' = objectAt blank objects o' := by
  simp [objectAt, List.getElem?_set_ne (Ne.symm ne)]

end

abbrev Heap (κ : Type u) (α : Type v) := List (Dict κ α)

def dictAt (h : Heap κ α) (a : Nat) : Dict κ α := objectAt Dict.empty h a

variable {n : Nat} {h : Heap κ α} {k : κ} {a : Nat} {o : Nat}

theorem dictAt_append_left (h h' : Heap κ α) (inside : a < h.length) :
    dictAt (h ++ h') a = dictAt h a := objectAt_append_left _ h h' inside

theorem dictAt_append_self (h : Heap κ α) (d : Dict κ α) : dictAt (h ++ [d]) h.length = d :=
  objectAt_append_self _ h d

theorem dictAt_set_self (inside : a < h.length) (d : Dict κ α) :
    dictAt (h.set a d) a = d := objectAt_set_self _ h inside d

theorem dictAt_set_ne (h : Heap κ α) {a a' : Nat} (ne : a' ≠ a) (d : Dict κ α) :
    dictAt (h.set a d) a' = dictAt h a' := objectAt_set_ne _ h ne d

def emptyShard : Nat := 0

variable [DecidableEq κ]

/-- How many shards an index with given parameters has, and the shard of a key. -/
structure Routing (π : Type w) (κ : Type u) where
  size : π → Nat
  route : π → κ → Nat
  route_lt : ∀ p k, route p k < size p

structure Index (π : Type w) where
  params : π
  shards : List Nat

structure Builder (π : Type w) where
  base : Index π
  dirty : Dict Nat Nat

/-- The writes of a program: the key each goes to, and from the value found there the answer
and what is stored. -/
structure Commands (κ : Type u) (α : Type v) (χ : Type y) (ρ : Type x) where
  key : χ → κ
  act : χ → Option α → ρ × Option α

def put (d : Dict κ α) (k : κ) : Option α → Dict κ α
  | none => d
  | some v => d.set k v

namespace Index

def empty (r : Routing π κ) (p : π) : Index π := ⟨p, List.replicate (r.size p) emptyShard⟩

def shardAt (i : Index π) (idx : Nat) : Nat := i.shards.getD idx emptyShard

def get (r : Routing π κ) (h : Heap κ α) (i : Index π) (k : κ) : Option α :=
  (dictAt h (i.shardAt (r.route i.params k))).get k

def items (h : Heap κ α) (i : Index π) : List (κ × α) :=
  i.shards.flatMap fun a => (dictAt h a).items

end Index

namespace Builder

def ofIndex (i : Index π) : Builder π := ⟨i, Dict.empty⟩

def get (r : Routing π κ) (h : Heap κ α) (b : Builder π) (k : κ) : Option α :=
  match b.dirty.get (r.route b.base.params k) with
  | some a => (dictAt h a).get k
  | none => (dictAt h (b.base.shardAt (r.route b.base.params k))).get k

/-- `_mut`: the dictionary to write a shard in, copied at the first write. -/
def mutShard (h : Heap κ α) (b : Builder π) (idx : Nat) : Nat × Heap κ α × Builder π :=
  match b.dirty.get idx with
  | some a => (a, h, b)
  | none => (h.length, h ++ [dictAt h (b.base.shardAt idx)], ⟨b.base, b.dirty.set idx h.length⟩)

/-- One write: what `u` answers to the value found, and what it stores. -/
def update (r : Routing π κ) (h : Heap κ α) (b : Builder π) (k : κ) (u : Option α → ρ × Option α) :
    ρ × Heap κ α × Builder π :=
  let (a, h, b) := b.mutShard h (r.route b.base.params k)
  let (answer, stored) := u ((dictAt h a).get k)
  (answer, h.set a (put (dictAt h a) k stored), b)

def frozenShard (h : Heap κ α) (a : Nat) : Nat :=
  if (dictAt h a).items.isEmpty then emptyShard else a

def freezeShards (h : Heap κ α) (shards : List Nat) (dirty : List (Nat × Nat)) : List Nat :=
  dirty.foldl (fun shards e => shards.set e.1 (frozenShard h e.2)) shards

def freeze (h : Heap κ α) (b : Builder π) : Index π :=
  ⟨b.base.params, freezeShards h b.base.shards b.dirty.items⟩

end Builder

/-- What a program does, with the numbers of the indexes and the builders it holds. -/
inductive Event (π : Type w) (χ : Type y) where
  | empty (p : π)
  | beginMutation (index : Nat)
  | update (builder : Nat) (command : χ)
  | freeze (builder : Nat)

/-- The memory of a program over shards; `frozen` are the builders an index was frozen from. -/
structure World (π : Type w) (κ : Type u) (α : Type v) where
  heap : Heap κ α
  indexes : List (Index π)
  builders : List (Builder π)
  frozen : List Nat

def World.init : World π κ α := ⟨[Dict.empty], [], [], []⟩

def step (r : Routing π κ) (c : Commands κ α χ ρ) (s : World π κ α) :
    Event π χ → Option (World π κ α × Option ρ)
  | .empty p => some (⟨s.heap, s.indexes ++ [Index.empty r p], s.builders, s.frozen⟩, none)
  | .beginMutation i =>
    s.indexes[i]?.map fun base =>
      (⟨s.heap, s.indexes, s.builders ++ [Builder.ofIndex base], s.frozen⟩, none)
  | .update n command =>
    s.builders[n]?.map fun b =>
      let (answer, heap, b) := b.update r s.heap (c.key command) (c.act command)
      (⟨heap, s.indexes, s.builders.set n b, s.frozen⟩, some answer)
  | .freeze n =>
    s.builders[n]?.map fun b =>
      (⟨s.heap, s.indexes ++ [b.freeze s.heap], s.builders, n :: s.frozen⟩, none)

def machine (r : Routing π κ) (c : Commands κ α χ ρ) :
    Machine (World π κ α) (Event π χ) (Option ρ) := ⟨step r c⟩

/-- No write through a builder that was frozen changes what the builder holds. -/
def Quiet (r : Routing π κ) (c : Commands κ α χ ρ) (s : World π κ α) : Event π χ → Prop
  | .update n command => n ∈ s.frozen → ∀ b, s.builders[n]? = some b →
      ∀ v, (c.act command (b.get r s.heap (c.key command))).2 = some v →
        b.get r s.heap (c.key command) = some v
  | _ => True

def written (old : κ → Option α) (k : κ) (stored : Option α) (k' : κ) : Option α :=
  if k = k' then stored.or (old k) else old k'

theorem get_put (d : Dict κ α) (k : κ) (stored : Option α) (k' : κ) :
    (put d k stored).get k' = written d.get k stored k' := by
  cases stored with
  | none =>
    rw [put, written]
    split
    · rename_i same
      rw [same, none_or]
    · rfl
  | some v =>
    rw [put, written, Dict.get_set, some_or]

variable {reports : List (Option ρ)} {es : List (Event π χ)} {next : World π κ α}
  {last : World π κ α} {stored : Option α} {report : Option ρ} {e : Event π χ}

theorem written_of_quiet {old : κ → Option α} (quiet : ∀ v, stored = some v → old k = some v)
    (k' : κ) : written old k stored k' = old k' := by
  rw [written]
  split
  · rename_i same
    cases stored with
    | none => rw [none_or, same]
    | some v => rw [some_or, ← same, quiet v rfl]
  · rfl

theorem written_congr {old old' : κ → Option α} (same : ∀ k, old k = old' k) (k : κ)
    (stored : Option α) (k' : κ) : written old k stored k' = written old' k stored k' := by
  rw [written, written, same k, same k']

/-- A plain index: an object with the readings of a dictionary, written in place. -/
structure PlainIndex (ω : Type z) (c : Commands κ α χ ρ) where
  new : ω
  get : ω → κ → Option α
  write : ω → χ → ρ × ω
  get_new : ∀ k, get new k = none
  answer_eq : ∀ o command, (write o command).1 = (c.act command (get o (c.key command))).1
  get_write : ∀ o command k, get (write o command).2 k =
    written (get o) (c.key command) (c.act command (get o (c.key command))).2 k

/-- The memory of a program over plain indexes: a builder works on a clone of the index and
freezes to the object it works on. -/
structure Plain (ω : Type z) where
  objects : List ω
  indexes : List Nat
  builders : List Nat

def Plain.init : Plain ω := ⟨[], [], []⟩

def plainStep {c : Commands κ α χ ρ} (x : PlainIndex ω c) (s : Plain ω) :
    Event π χ → Option (Plain ω × Option ρ)
  | .empty _ => some (⟨s.objects ++ [x.new], s.indexes ++ [s.objects.length], s.builders⟩, none)
  | .beginMutation i =>
    s.indexes[i]?.map fun o =>
      (⟨s.objects ++ [objectAt x.new s.objects o], s.indexes,
        s.builders ++ [s.objects.length]⟩, none)
  | .update n command =>
    s.builders[n]?.map fun o =>
      let (answer, object) := x.write (objectAt x.new s.objects o) command
      (⟨s.objects.set o object, s.indexes, s.builders⟩, some answer)
  | .freeze n => s.builders[n]?.map fun o => (⟨s.objects, s.indexes ++ [o], s.builders⟩, none)

def plainMachine {c : Commands κ α χ ρ} (x : PlainIndex ω c) :
    Machine (Plain ω) (Event π χ) (Option ρ) := ⟨plainStep x⟩

section

variable (r : Routing π κ)

def Routed (h : Heap κ α) (p : π) (idx a : Nat) : Prop :=
  ∀ k v, (dictAt h a).get k = some v → r.route p k = idx

/-- The shards of an index are in memory, each with its own keys. -/
structure IndexOk (h : Heap κ α) (i : Index π) : Prop where
  length_eq : i.shards.length = r.size i.params
  shard_ok : ∀ idx a, i.shards[idx]? = some a → a < h.length ∧ Routed r h i.params idx a

/-- A written dictionary of a builder that was not frozen is seen by that builder only. -/
structure Owned (s : World π κ α) (n idx a : Nat) : Prop where
  not_indexed : ∀ i ∈ s.indexes, a ∉ i.shards
  unique : ∀ (m : Nat) b idx', s.builders[m]? = some b → b.dirty.get idx' = some a →
    m = n ∧ idx' = idx

structure Sound (s : World π κ α) : Prop where
  heap_pos : 0 < s.heap.length
  empty_eq : dictAt s.heap emptyShard = Dict.empty
  index_ok : ∀ i ∈ s.indexes, IndexOk r s.heap i
  base_mem : ∀ b ∈ s.builders, b.base ∈ s.indexes
  dirty_ok : ∀ b ∈ s.builders, ∀ idx a, b.dirty.get idx = some a →
    idx < r.size b.base.params ∧ 0 < a ∧ a < s.heap.length ∧ Routed r s.heap b.base.params idx a
  owned : ∀ (n : Nat) b, s.builders[n]? = some b → n ∉ s.frozen →
    ∀ idx a, b.dirty.get idx = some a → Owned s n idx a

end

variable {r : Routing π κ} {s : World π κ α}

theorem sound_init : Sound r (World.init : World π κ α) where
  heap_pos := Nat.zero_lt_one
  empty_eq := rfl
  index_ok := List.forall_mem_nil _
  base_mem := List.forall_mem_nil _
  dirty_ok := List.forall_mem_nil _
  owned := by
    intro n b found
    cases found

variable {i : Index π}

theorem IndexOk.congr {h h' : Heap κ α} (ok : IndexOk r h i) (grows : h.length ≤ h'.length)
    (same : ∀ a ∈ i.shards, ∀ k, (dictAt h' a).get k = (dictAt h a).get k) : IndexOk r h' i where
  length_eq := ok.length_eq
  shard_ok := by
    intro idx a found
    obtain ⟨inside, routed⟩ := ok.shard_ok idx a found
    refine ⟨Nat.lt_of_lt_of_le inside grows, fun k v hit => routed k v ?_⟩
    rw [← same a (List.mem_of_getElem? found), hit]

theorem IndexOk.shardAt_mem (ok : IndexOk r h i) {idx : Nat} (inside : idx < r.size i.params) :
    i.shards[idx]? = some (i.shardAt idx) := by
  have bound : idx < i.shards.length := by rwa [ok.length_eq]
  rw [Index.shardAt, List.getD_eq_getElem?_getD, List.getElem?_eq_getElem bound, getD_some]

theorem Index.get_congr {h h' : Heap κ α} (ok : IndexOk r h i)
    (same : ∀ a ∈ i.shards, ∀ k, (dictAt h' a).get k = (dictAt h a).get k) (k : κ) :
    i.get r h' k = i.get r h k :=
  same _ (List.mem_of_getElem? (ok.shardAt_mem (r.route_lt i.params k))) k

private theorem concat_cases {β : Type w} {l : List β} {new b : β}
    (found : (l ++ [new])[n]? = some b) : l[n]? = some b ∨ (n = l.length ∧ b = new) := by
  rcases Nat.lt_trichotomy n l.length with below | same | above
  · rw [List.getElem?_append_left below] at found
    exact .inl found
  · subst same
    rw [List.getElem?_concat_length, Option.some.injEq] at found
    exact .inr ⟨rfl, found.symm⟩
  · rw [List.getElem?_eq_none (by rw [List.length_append, List.length_singleton]; omega)] at found
    cases found

theorem sound_empty (sound : Sound r s) (p : π) :
    Sound r ⟨s.heap, s.indexes ++ [Index.empty r p], s.builders, s.frozen⟩ where
  heap_pos := sound.heap_pos
  empty_eq := sound.empty_eq
  index_ok := by
    intro i member
    rcases List.mem_append.mp member with before | new
    · exact sound.index_ok i before
    · obtain rfl := List.mem_singleton.mp new
      refine ⟨List.length_replicate, fun idx a found => ?_⟩
      obtain rfl := List.eq_of_mem_replicate (List.mem_of_getElem? found)
      refine ⟨sound.heap_pos, fun k v hit => ?_⟩
      rw [sound.empty_eq] at hit
      cases hit
  base_mem b member := List.mem_append_left _ (sound.base_mem b member)
  dirty_ok := sound.dirty_ok
  owned := by
    intro n b found open_ idx a hit
    obtain ⟨not_indexed, unique⟩ := sound.owned n b found open_ idx a hit
    refine ⟨fun i member inside => ?_, unique⟩
    rcases List.mem_append.mp member with before | new
    · exact not_indexed i before inside
    · obtain rfl := List.mem_singleton.mp new
      have positive := (sound.dirty_ok b (List.mem_of_getElem? found) idx a hit).2.1
      rw [List.eq_of_mem_replicate inside] at positive
      exact Nat.lt_irrefl 0 positive

theorem sound_beginMutation (sound : Sound r s) {i : Nat} {base : Index π}
    (found : s.indexes[i]? = some base) :
    Sound r ⟨s.heap, s.indexes, s.builders ++ [Builder.ofIndex base], s.frozen⟩ where
  heap_pos := sound.heap_pos
  empty_eq := sound.empty_eq
  index_ok := sound.index_ok
  base_mem := by
    intro b member
    rcases List.mem_append.mp member with before | new
    · exact sound.base_mem b before
    · obtain rfl := List.mem_singleton.mp new
      exact List.mem_of_getElem? found
  dirty_ok := by
    intro b member idx a hit
    rcases List.mem_append.mp member with before | new
    · exact sound.dirty_ok b before idx a hit
    · obtain rfl := List.mem_singleton.mp new
      cases hit
  owned := by
    intro n b hasBuilder notFrozen idx a hit
    rcases concat_cases hasBuilder with before | ⟨-, rfl⟩
    · obtain ⟨not_indexed, unique⟩ := sound.owned n b before notFrozen idx a hit
      refine ⟨not_indexed, fun m b' idx' found' hit' => ?_⟩
      rcases concat_cases found' with before' | ⟨-, rfl⟩
      · exact unique m b' idx' before' hit'
      · cases hit'
    · cases hit

omit [DecidableEq κ] in
private theorem getElem?_freezeShards (h : Heap κ α) (l : List (Nat × Nat))
    (nodup : (l.map Prod.fst).Nodup) (shards : List Nat) (idx : Nat) :
    (Builder.freezeShards h shards l)[idx]? =
      match Dict.lookupEntry idx l with
      | some a => if idx < shards.length then some (Builder.frozenShard h a) else none
      | none => shards[idx]? := by
  induction l generalizing shards with
  | nil => rfl
  | cons e l ih =>
    obtain ⟨j, a⟩ := e
    obtain ⟨fresh, nodup⟩ := List.nodup_cons.mp nodup
    rw [Builder.freezeShards, List.foldl_cons, ← Builder.freezeShards, ih nodup, List.length_set,
      Dict.lookupEntry]
    by_cases same : j = idx
    · subst same
      have absent : Dict.lookupEntry j l = none := by
        have none := (Dict.get_eq_none_iff ⟨l, nodup⟩ j).mpr fresh
        exact none
      rw [absent, if_pos rfl]
      by_cases inside : j < shards.length
      · simp [inside]
      · simp [inside]
    · rw [if_neg same]
      cases Dict.lookupEntry idx l with
      | none => simp [List.getElem?_set_ne same]
      | some a' => rfl

omit [DecidableEq κ] in
theorem length_freeze (h : Heap κ α) (b : Builder π) :
    (b.freeze h).shards.length = b.base.shards.length := by
  have general : ∀ (l : List (Nat × Nat)) (shards : List Nat),
      (Builder.freezeShards h shards l).length = shards.length := by
    intro l
    induction l with
    | nil => exact fun _ => rfl
    | cons e l ih =>
      intro shards
      rw [Builder.freezeShards, List.foldl_cons, ← Builder.freezeShards, ih, List.length_set]
  exact general _ _

omit [DecidableEq κ] in
theorem getElem?_freeze (h : Heap κ α) (b : Builder π) (idx : Nat) :
    (b.freeze h).shards[idx]? =
      match b.dirty.get idx with
      | some a => if idx < b.base.shards.length then some (Builder.frozenShard h a) else none
      | none => b.base.shards[idx]? :=
  getElem?_freezeShards h b.dirty.items b.dirty.nodup b.base.shards idx

theorem get_frozenShard (sound : Sound r s) (a : Nat) (k : κ) :
    (dictAt s.heap (Builder.frozenShard s.heap a)).get k = (dictAt s.heap a).get k := by
  rw [Builder.frozenShard]
  split
  · rename_i blank
    have nothing : (dictAt s.heap a).items = [] := List.isEmpty_iff.mp blank
    rw [sound.empty_eq, Dict.get_empty, Dict.get, nothing]
    rfl
  · rfl

omit [DecidableEq κ] in
theorem frozenShard_cases (h : Heap κ α) (a : Nat) :
    Builder.frozenShard h a = emptyShard ∨ Builder.frozenShard h a = a := by
  rw [Builder.frozenShard]
  split
  · exact .inl rfl
  · exact .inr rfl

variable {b : Builder π}

theorem get_freeze (sound : Sound r s) (member : b ∈ s.builders) (k : κ) :
    (b.freeze s.heap).get r s.heap k = b.get r s.heap k := by
  have ok := sound.index_ok b.base (sound.base_mem b member)
  have inside := r.route_lt b.base.params k
  have bound : r.route b.base.params k < b.base.shards.length := by rwa [ok.length_eq]
  have shard := getElem?_freeze s.heap b (r.route b.base.params k)
  obtain ⟨idx, idx_eq⟩ : ∃ idx, idx = r.route b.base.params k := ⟨_, rfl⟩
  rw [← idx_eq] at inside bound shard
  rw [Index.get, Builder.get, ← idx_eq, Index.shardAt, List.getD_eq_getElem?_getD]
  show (dictAt s.heap ((b.freeze s.heap).shards[r.route b.base.params k]?.getD _)).get k = _
  rw [← idx_eq, shard]
  cases b.dirty.get idx with
  | none => rw [ok.shardAt_mem inside, getD_some]
  | some a => simp only [if_pos bound, getD_some, get_frozenShard sound]

theorem indexOk_freeze (sound : Sound r s) (member : b ∈ s.builders) :
    IndexOk r s.heap (b.freeze s.heap) := by
  have ok := sound.index_ok b.base (sound.base_mem b member)
  refine ⟨by rw [length_freeze, ok.length_eq]; rfl, fun idx a found => ?_⟩
  rw [getElem?_freeze] at found
  cases dirty : b.dirty.get idx with
  | none =>
    rw [dirty] at found
    exact ok.shard_ok idx a found
  | some a' =>
    simp only [dirty] at found
    split at found
    · obtain rfl := Option.some.inj found
      obtain ⟨-, -, inside, routed⟩ := sound.dirty_ok b member idx a' dirty
      refine ⟨?_, fun k v hit => ?_⟩
      · rcases frozenShard_cases s.heap a' with blank | same
        · rw [blank]
          exact sound.heap_pos
        · rwa [same]
      · rw [get_frozenShard sound] at hit
        exact routed k v hit
    · cases found

theorem sound_freeze (sound : Sound r s) (found : s.builders[n]? = some b) :
    Sound r ⟨s.heap, s.indexes ++ [b.freeze s.heap], s.builders, n :: s.frozen⟩ where
  heap_pos := sound.heap_pos
  empty_eq := sound.empty_eq
  index_ok := by
    intro i member
    rcases List.mem_append.mp member with before | new
    · exact sound.index_ok i before
    · obtain rfl := List.mem_singleton.mp new
      have frozen := indexOk_freeze sound (List.mem_of_getElem? found)
      exact frozen
  base_mem b' member := List.mem_append_left _ (sound.base_mem b' member)
  dirty_ok := sound.dirty_ok
  owned := by
    intro m b' found' notFrozen idx a hit
    rw [List.mem_cons, not_or] at notFrozen
    obtain ⟨not_indexed, unique⟩ := sound.owned m b' found' notFrozen.2 idx a hit
    refine ⟨fun i member inside => ?_, unique⟩
    rcases List.mem_append.mp member with before | new
    · exact not_indexed i before inside
    · obtain rfl := List.mem_singleton.mp new
      obtain ⟨j, shard⟩ := List.mem_iff_getElem?.mp inside
      rw [getElem?_freeze] at shard
      cases dirty : b.dirty.get j with
      | none =>
        rw [dirty] at shard
        exact not_indexed b.base (sound.base_mem b (List.mem_of_getElem? found))
          (List.mem_of_getElem? shard)
      | some a' =>
        simp only [dirty] at shard
        split at shard
        · rw [Option.some.injEq] at shard
          rcases frozenShard_cases s.heap a' with blank | same
          · have positive := (sound.dirty_ok b' (List.mem_of_getElem? found') idx a hit).2.1
            rw [← shard, blank] at positive
            exact Nat.lt_irrefl 0 positive
          · rw [← shard, same] at unique
            exact notFrozen.1 (unique n b j found dirty).1.symm
        · cases shard

theorem Builder.get_congr {h h' : Heap κ α} (ok : IndexOk r h b.base)
    (same_base : ∀ a ∈ b.base.shards, ∀ k, (dictAt h' a).get k = (dictAt h a).get k)
    (same_dirty : ∀ idx a, b.dirty.get idx = some a → ∀ k, (dictAt h' a).get k = (dictAt h a).get k)
    (k : κ) : b.get r h' k = b.get r h k := by
  rw [Builder.get, Builder.get]
  cases dirty : b.dirty.get (r.route b.base.params k) with
  | some a => exact same_dirty _ a dirty k
  | none => exact same_base _ (List.mem_of_getElem? (ok.shardAt_mem (r.route_lt _ k))) k

theorem update_of_dirty (dirty : b.dirty.get (r.route b.base.params k) = some a)
    (u : Option α → ρ × Option α) :
    b.update r h k u =
      ((u (b.get r h k)).1, h.set a (put (dictAt h a) k (u (b.get r h k)).2), b) := by
  have reading : b.get r h k = (dictAt h a).get k := by
    rw [Builder.get, dirty]
  rw [Builder.update, Builder.mutShard, dirty, reading]

theorem update_of_clean (clean : b.dirty.get (r.route b.base.params k) = none)
    (u : Option α → ρ × Option α) :
    b.update r h k u = ((u (b.get r h k)).1,
      h ++ [put (dictAt h (b.base.shardAt (r.route b.base.params k))) k (u (b.get r h k)).2],
      ⟨b.base, b.dirty.set (r.route b.base.params k) h.length⟩) := by
  have reading : b.get r h k =
      (dictAt h (b.base.shardAt (r.route b.base.params k))).get k := by
    rw [Builder.get, clean]
  rw [Builder.update, Builder.mutShard, clean]
  simp only [dictAt_append_self, ← reading]
  congr 2
  rw [List.set_append_right _ _ (Nat.le_refl _), Nat.sub_self, List.set_cons_zero]

/-- What a write does to the readings: the builder reads what was stored, and no index and no
other builder reads otherwise. -/
structure Wrote (r : Routing π κ) (s : World π κ α) (n : Nat) (b : Builder π) (k : κ)
    (stored : Option α) (h' : Heap κ α) (b' : Builder π) : Prop where
  sound : Sound r ⟨h', s.indexes, s.builders.set n b', s.frozen⟩
  index_get : ∀ i ∈ s.indexes, ∀ k', i.get r h' k' = i.get r s.heap k'
  self_get : ∀ k', b'.get r h' k' = written (b.get r s.heap) k stored k'
  other_get : ∀ (m : Nat) b₂, m ≠ n → s.builders[m]? = some b₂ →
    ∀ k', b₂.get r h' k' = b₂.get r s.heap k'

theorem wrote_of_dirty (sound : Sound r s) (found : s.builders[n]? = some b)
    (dirty : b.dirty.get (r.route b.base.params k) = some a)
    (quiet : n ∈ s.frozen → ∀ v, stored = some v → b.get r s.heap k = some v) :
    Wrote r s n b k stored (s.heap.set a (put (dictAt s.heap a) k stored)) b := by
  have member : b ∈ s.builders := List.mem_of_getElem? found
  obtain ⟨-, positive, inside, routed⟩ := sound.dirty_ok b member _ a dirty
  have self : s.builders.set n b = s.builders := by
    obtain ⟨bound, here⟩ := List.getElem?_eq_some_iff.mp found
    rw [← here, List.set_getElem_self]
  have reading (k' : κ) (same : r.route b.base.params k' = r.route b.base.params k) :
      b.get r s.heap k' = (dictAt s.heap a).get k' := by
    rw [Builder.get, same, dirty]
  have target (k' : κ) : (dictAt (s.heap.set a (put (dictAt s.heap a) k stored)) a).get k' =
      written (dictAt s.heap a).get k stored k' := by
    rw [dictAt_set_self inside, get_put]
  -- a dictionary that only a frozen builder shares is written with what it holds
  have spared (a' : Nat) (shared : a' = a → n ∈ s.frozen) (k' : κ) :
      (dictAt (s.heap.set a (put (dictAt s.heap a) k stored)) a').get k' =
        (dictAt s.heap a').get k' := by
    by_cases same : a' = a
    · subst same
      rw [target]
      refine written_of_quiet (fun v hit => ?_) k'
      rw [← reading k rfl]
      exact quiet (shared rfl) v hit
    · rw [dictAt_set_ne _ same]
  have index_spared (i : Index π) (indexed : i ∈ s.indexes) (a' : Nat) (shard : a' ∈ i.shards)
      (same : a' = a) : n ∈ s.frozen := by
    by_contra notFrozen
    exact (sound.owned n b found notFrozen _ a dirty).not_indexed i indexed (same ▸ shard)
  have dirty_spared (m : Nat) (b₂ : Builder π) (found₂ : s.builders[m]? = some b₂) (idx a' : Nat)
      (dirty₂ : b₂.dirty.get idx = some a') (other : ¬ (m = n ∧ idx = r.route b.base.params k))
      (same : a' = a) : n ∈ s.frozen := by
    by_contra notFrozen
    exact other ((sound.owned n b found notFrozen _ a dirty).unique m b₂ idx found₂ (same ▸ dirty₂))
  constructor
  · rw [self]
    refine ⟨?_, ?_, ?_, sound.base_mem, ?_, ?_⟩
    · rw [List.length_set]
      exact sound.heap_pos
    · have ne : emptyShard ≠ a := Nat.ne_of_lt positive
      rw [dictAt_set_ne _ ne]
      exact sound.empty_eq
    · intro i indexed
      exact (sound.index_ok i indexed).congr (by rw [List.length_set])
        fun a' shard => spared a' (index_spared i indexed a' shard)
    · intro b₂ member₂ idx a' dirty₂
      obtain ⟨m, found₂⟩ := List.mem_iff_getElem?.mp member₂
      obtain ⟨below, positive', inside', routed'⟩ := sound.dirty_ok b₂ member₂ idx a' dirty₂
      refine ⟨below, positive', by rwa [List.length_set], fun k' v hit => ?_⟩
      by_cases here : m = n ∧ idx = r.route b.base.params k
      · obtain ⟨rfl, rfl⟩ := here
        cases found.symm.trans found₂
        cases dirty.symm.trans dirty₂
        rw [target, written] at hit
        split at hit
        · rename_i same
          rw [← same]
        · exact routed k' v hit
      · rw [spared a' (dirty_spared m b₂ found₂ idx a' dirty₂ here)] at hit
        exact routed' k' v hit
    · intro m b₂ found₂ notFrozen idx a' dirty₂
      obtain ⟨not_indexed, unique⟩ := sound.owned m b₂ found₂ notFrozen idx a' dirty₂
      exact ⟨not_indexed, unique⟩
  · intro i indexed
    exact Index.get_congr (sound.index_ok i indexed) fun a' shard =>
      spared a' (index_spared i indexed a' shard)
  · intro k'
    by_cases same : r.route b.base.params k' = r.route b.base.params k
    · have now : b.get r (s.heap.set a (put (dictAt s.heap a) k stored)) k' =
          (dictAt (s.heap.set a (put (dictAt s.heap a) k stored)) a).get k' := by
        rw [Builder.get, same, dirty]
      rw [now, target, written, written, reading k rfl, reading k' same]
    · have ne : k ≠ k' := fun equal => same (by rw [equal])
      rw [written, if_neg ne, Builder.get, Builder.get]
      cases dirty' : b.dirty.get (r.route b.base.params k') with
      | some a' => exact spared a' (dirty_spared n b found _ a' dirty' fun h => same h.2) k'
      | none =>
        have base := sound.base_mem b member
        have shard := (sound.index_ok b.base base).shardAt_mem (r.route_lt b.base.params k')
        exact spared _ (index_spared b.base base _ (List.mem_of_getElem? shard)) k'
  · intro m b₂ ne found₂
    have base := sound.base_mem b₂ (List.mem_of_getElem? found₂)
    exact Builder.get_congr (sound.index_ok b₂.base base)
      (fun a' shard => spared a' (index_spared b₂.base base a' shard))
      fun idx a' dirty₂ => spared a' (dirty_spared m b₂ found₂ idx a' dirty₂ fun h => ne h.1)

private theorem set_cases {β : Type w} {l : List β} {n m : Nat} {new b : β}
    (found : (l.set n new)[m]? = some b) : (m = n ∧ b = new) ∨ (m ≠ n ∧ l[m]? = some b) := by
  by_cases same : m = n
  · subst same
    rw [List.getElem?_set] at found
    split at found
    · split at found
      · exact .inl ⟨rfl, (Option.some.inj found).symm⟩
      · cases found
    · rename_i other
      exact absurd rfl other
  · rw [List.getElem?_set_ne (Ne.symm same)] at found
    exact .inr ⟨same, found⟩

theorem wrote_of_clean (sound : Sound r s) (found : s.builders[n]? = some b)
    (clean : b.dirty.get (r.route b.base.params k) = none) (stored : Option α) :
    Wrote r s n b k stored
      (s.heap ++ [put (dictAt s.heap (b.base.shardAt (r.route b.base.params k))) k stored])
      ⟨b.base, b.dirty.set (r.route b.base.params k) s.heap.length⟩ := by
  have member : b ∈ s.builders := List.mem_of_getElem? found
  have base := sound.base_mem b member
  obtain ⟨copied_inside, copied_routed⟩ := (sound.index_ok b.base base).shard_ok _ _
    ((sound.index_ok b.base base).shardAt_mem (r.route_lt b.base.params k))
  obtain ⟨copied, copied_eq⟩ : ∃ a, a = b.base.shardAt (r.route b.base.params k) := ⟨_, rfl⟩
  rw [← copied_eq] at copied_inside copied_routed ⊢
  obtain ⟨h', h'_eq⟩ : ∃ h', h' = s.heap ++ [put (dictAt s.heap copied) k stored] := ⟨_, rfl⟩
  rw [← h'_eq]
  have grown : h'.length = s.heap.length + 1 := by
    rw [h'_eq, List.length_append, List.length_singleton]
  have kept {a : Nat} (inside : a < s.heap.length) : dictAt h' a = dictAt s.heap a := by
    rw [h'_eq, dictAt_append_left _ _ inside]
  have fresh (k' : κ) :
      (dictAt h' s.heap.length).get k' = written (dictAt s.heap copied).get k stored k' := by
    rw [h'_eq, dictAt_append_self, get_put]
  have reading (k' : κ) (same : r.route b.base.params k' = r.route b.base.params k) :
      b.get r s.heap k' = (dictAt s.heap copied).get k' := by
    rw [Builder.get, same, clean, copied_eq]
  have index_inside (i : Index π) (indexed : i ∈ s.indexes) (a : Nat) (shard : a ∈ i.shards) :
      a < s.heap.length := by
    obtain ⟨j, here⟩ := List.mem_iff_getElem?.mp shard
    exact ((sound.index_ok i indexed).shard_ok j a here).1
  have index_kept (i : Index π) (indexed : i ∈ s.indexes) (a : Nat) (shard : a ∈ i.shards)
      (k' : κ) : (dictAt h' a).get k' = (dictAt s.heap a).get k' := by
    rw [kept (index_inside i indexed a shard)]
  have dirty_inside (b₂ : Builder π) (member₂ : b₂ ∈ s.builders) (idx a : Nat)
      (dirty : b₂.dirty.get idx = some a) : a < s.heap.length :=
    (sound.dirty_ok b₂ member₂ idx a dirty).2.2.1
  -- a dictionary of the new builder is one of the old builder, or the copy
  have dirty_cases (idx a : Nat)
      (dirty : (b.dirty.set (r.route b.base.params k) s.heap.length).get idx = some a) :
      (idx = r.route b.base.params k ∧ a = s.heap.length) ∨ b.dirty.get idx = some a := by
    rw [Dict.get_set] at dirty
    split at dirty
    · rename_i same
      exact .inl ⟨same.symm, (Option.some.inj dirty).symm⟩
    · exact .inr dirty
  constructor
  · refine ⟨?_, ?_, ?_, ?_, ?_, ?_⟩
    · show 0 < h'.length
      omega
    · have inside : emptyShard < s.heap.length := sound.heap_pos
      show dictAt h' emptyShard = _
      rw [kept inside]
      exact sound.empty_eq
    · intro i indexed
      have grows : s.heap.length ≤ h'.length := by omega
      exact (sound.index_ok i indexed).congr grows (index_kept i indexed)
    · intro b₂ member₂
      rcases List.mem_or_eq_of_mem_set member₂ with before | rfl
      · exact sound.base_mem b₂ before
      · exact base
    · intro b₂ member₂ idx a dirty
      show idx < r.size b₂.base.params ∧ 0 < a ∧ a < h'.length ∧ Routed r h' b₂.base.params idx a
      have old (b₃ : Builder π) (member₃ : b₃ ∈ s.builders) (dirty₃ : b₃.dirty.get idx = some a) :
          idx < r.size b₃.base.params ∧ 0 < a ∧ a < h'.length ∧
            Routed r h' b₃.base.params idx a := by
        obtain ⟨below, positive, inside, routed⟩ := sound.dirty_ok b₃ member₃ idx a dirty₃
        refine ⟨below, positive, by omega, fun k' v hit => routed k' v ?_⟩
        rwa [kept inside] at hit
      rcases List.mem_or_eq_of_mem_set member₂ with before | rfl
      · exact old b₂ before dirty
      · rcases dirty_cases idx a dirty with ⟨rfl, rfl⟩ | before
        · refine ⟨r.route_lt _ k, sound.heap_pos, by omega, fun k' v hit => ?_⟩
          rw [fresh, written] at hit
          split at hit
          · rename_i same
            rw [← same]
          · exact copied_routed k' v hit
        · exact old b member before
    · intro m b₂ found₂ notFrozen idx a dirty
      constructor
      · intro i indexed shard
        have inside := index_inside i indexed a shard
        rcases set_cases found₂ with ⟨rfl, rfl⟩ | ⟨ne, before⟩
        · rcases dirty_cases idx a dirty with ⟨-, rfl⟩ | earlier
          · omega
          · exact (sound.owned m b found notFrozen idx a earlier).not_indexed i indexed shard
        · exact (sound.owned m b₂ before notFrozen idx a dirty).not_indexed i indexed shard
      · intro m₃ b₃ idx₃ found₃ dirty₃
        rcases set_cases found₂ with ⟨rfl, rfl⟩ | ⟨ne, before⟩
        · rcases dirty_cases idx a dirty with ⟨rfl, rfl⟩ | earlier
          · rcases set_cases found₃ with ⟨rfl, rfl⟩ | ⟨-, before₃⟩
            · rcases dirty_cases idx₃ _ dirty₃ with ⟨rfl, -⟩ | earlier₃
              · exact ⟨rfl, rfl⟩
              · exact absurd (dirty_inside b member _ _ earlier₃) (Nat.lt_irrefl _)
            · exact absurd (dirty_inside b₃ (List.mem_of_getElem? before₃) _ _ dirty₃)
                (Nat.lt_irrefl _)
          · have inside := dirty_inside b member _ _ earlier
            rcases set_cases found₃ with ⟨rfl, rfl⟩ | ⟨-, before₃⟩
            · rcases dirty_cases idx₃ _ dirty₃ with ⟨-, rfl⟩ | earlier₃
              · exact absurd inside (Nat.lt_irrefl _)
              · exact (sound.owned m₃ b found notFrozen idx a earlier).unique m₃ b idx₃ found
                  earlier₃
            · exact (sound.owned m b found notFrozen idx a earlier).unique m₃ b₃ idx₃ before₃ dirty₃
        · have inside := dirty_inside b₂ (List.mem_of_getElem? before) _ _ dirty
          rcases set_cases found₃ with ⟨rfl, rfl⟩ | ⟨-, before₃⟩
          · rcases dirty_cases idx₃ _ dirty₃ with ⟨-, rfl⟩ | earlier₃
            · exact absurd inside (Nat.lt_irrefl _)
            · exact (sound.owned m b₂ before notFrozen idx a dirty).unique m₃ b idx₃ found earlier₃
          · exact (sound.owned m b₂ before notFrozen idx a dirty).unique m₃ b₃ idx₃ before₃ dirty₃
  · intro i indexed
    exact Index.get_congr (sound.index_ok i indexed) (index_kept i indexed)
  · intro k'
    show Builder.get r h' ⟨b.base, b.dirty.set (r.route b.base.params k) s.heap.length⟩ k' = _
    rw [Builder.get, Dict.get_set]
    by_cases same : r.route b.base.params k = r.route b.base.params k'
    · rw [if_pos same]
      show (dictAt h' s.heap.length).get k' = _
      rw [fresh, written, written, reading k rfl, reading k' same.symm]
    · have ne : k ≠ k' := fun equal => same (by rw [equal])
      rw [if_neg same, written, if_neg ne, Builder.get]
      cases dirty : b.dirty.get (r.route b.base.params k') with
      | some a =>
        show (dictAt h' a).get k' = _
        rw [kept (dirty_inside b member _ a dirty)]
      | none =>
        have shard := (sound.index_ok b.base base).shardAt_mem (r.route_lt b.base.params k')
        exact index_kept b.base base _ (List.mem_of_getElem? shard) k'
  · intro m b₂ ne found₂
    have member₂ := List.mem_of_getElem? found₂
    have base₂ := sound.base_mem b₂ member₂
    apply Builder.get_congr (sound.index_ok b₂.base base₂) (index_kept b₂.base base₂)
    intro idx a dirty k'
    rw [kept (dirty_inside b₂ member₂ idx a dirty)]

theorem update_wrote (sound : Sound r s) (found : s.builders[n]? = some b)
    {u : Option α → ρ × Option α}
    (quiet : n ∈ s.frozen → ∀ v, (u (b.get r s.heap k)).2 = some v → b.get r s.heap k = some v) :
    ∃ h' b', b.update r s.heap k u = ((u (b.get r s.heap k)).1, h', b') ∧
      Wrote r s n b k (u (b.get r s.heap k)).2 h' b' := by
  cases dirty : b.dirty.get (r.route b.base.params k) with
  | some a => exact ⟨_, _, update_of_dirty dirty u, wrote_of_dirty sound found dirty quiet⟩
  | none => exact ⟨_, _, update_of_clean dirty u, wrote_of_clean sound found dirty _⟩

theorem mem_items (ok : IndexOk r h i) {e : κ × α} : e ∈ i.items h ↔ i.get r h e.1 = some e.2 := by
  rw [Index.items, List.mem_flatMap, Index.get, Dict.get_eq_some_iff]
  constructor
  · intro ⟨a, shard, here⟩
    obtain ⟨idx, found⟩ := List.mem_iff_getElem?.mp shard
    have hit := (Dict.get_eq_some_iff (dictAt h a) e.1 e.2).mpr here
    obtain rfl := (ok.shard_ok idx a found).2 e.1 e.2 hit
    have same := ok.shardAt_mem (r.route_lt i.params e.1)
    rw [found, Option.some.injEq] at same
    rwa [← same]
  · intro here
    have shard := ok.shardAt_mem (r.route_lt i.params e.1)
    exact ⟨_, List.mem_of_getElem? shard, here⟩

theorem nodup_items (ok : IndexOk r h i) : (i.items h).Nodup := by
  rw [Index.items, List.nodup_flatMap]
  constructor
  · intro a _
    exact (dictAt h a).nodup.of_map
  · rw [List.pairwise_iff_getElem]
    intro idx idx' below below' less e here here'
    have hit := (Dict.get_eq_some_iff _ e.1 e.2).mpr here
    have hit' := (Dict.get_eq_some_iff _ e.1 e.2).mpr here'
    have shard := (ok.shard_ok idx _ (List.getElem?_eq_getElem below)).2 e.1 e.2 hit
    have shard' := (ok.shard_ok idx' _ (List.getElem?_eq_getElem below')).2 e.1 e.2 hit'
    omega

theorem items_perm (ok : IndexOk r h i) {d : Dict κ α} (same : ∀ k, i.get r h k = d.get k) :
    (i.items h).Perm d.items := by
  rw [List.perm_ext_iff_of_nodup (nodup_items ok) d.nodup.of_map]
  intro e
  rw [mem_items ok, same, Dict.get_eq_some_iff]

theorem items_perm_of_get {h h' : Heap κ α} (ok : IndexOk r h i) (ok' : IndexOk r h' i)
    (same : ∀ k, i.get r h k = i.get r h' k) : (i.items h).Perm (i.items h') := by
  rw [List.perm_ext_iff_of_nodup (nodup_items ok) (nodup_items ok')]
  intro e
  rw [mem_items ok, mem_items ok', same]

/-- The two memories hold the same indexes and builders; a builder that was not frozen works
on an object of its own. -/
structure Related (r : Routing π κ) {c : Commands κ α χ ρ} (x : PlainIndex ω c) (s : World π κ α)
    (p : Plain ω) : Prop where
  indexes_length : s.indexes.length = p.indexes.length
  builders_length : s.builders.length = p.builders.length
  index_get : ∀ (n : Nat) i o, s.indexes[n]? = some i → p.indexes[n]? = some o →
    ∀ k, i.get r s.heap k = x.get (objectAt x.new p.objects o) k
  builder_get : ∀ (n : Nat) b o, s.builders[n]? = some b → p.builders[n]? = some o →
    ∀ k, b.get r s.heap k = x.get (objectAt x.new p.objects o) k
  index_inside : ∀ o ∈ p.indexes, o < p.objects.length
  builder_inside : ∀ o ∈ p.builders, o < p.objects.length
  distinct : p.builders.Nodup
  apart : ∀ (n : Nat) o, p.builders[n]? = some o → n ∉ s.frozen → o ∉ p.indexes

variable {c : Commands κ α χ ρ} {x : PlainIndex ω c}

theorem related_init : Related r x (World.init : World π κ α) Plain.init where
  indexes_length := rfl
  builders_length := rfl
  index_get := by
    intro n i o found
    cases found
  builder_get := by
    intro n b o found
    cases found
  index_inside := List.forall_mem_nil _
  builder_inside := List.forall_mem_nil _
  distinct := List.nodup_nil
  apart := by
    intro n o found
    cases found

variable {p : Plain ω}

theorem Related.exists_index (related : Related r x s p) (found : s.indexes[n]? = some i) :
    ∃ o, p.indexes[n]? = some o := by
  obtain ⟨below, -⟩ := List.getElem?_eq_some_iff.mp found
  exact ⟨_, List.getElem?_eq_getElem (related.indexes_length ▸ below)⟩

theorem Related.exists_builder (related : Related r x s p) (found : s.builders[n]? = some b) :
    ∃ o, p.builders[n]? = some o := by
  obtain ⟨below, -⟩ := List.getElem?_eq_some_iff.mp found
  exact ⟨_, List.getElem?_eq_getElem (related.builders_length ▸ below)⟩

theorem related_empty (sound : Sound r s) (related : Related r x s p) (params : π) :
    Related r x ⟨s.heap, s.indexes ++ [Index.empty r params], s.builders, s.frozen⟩
      ⟨p.objects ++ [x.new], p.indexes ++ [p.objects.length], p.builders⟩ := by
  constructor
  · simp [related.indexes_length]
  · exact related.builders_length
  · intro n i o found found' k
    rcases concat_cases found with before | ⟨rfl, rfl⟩
    · obtain ⟨o', before'⟩ := related.exists_index before
      obtain ⟨below, -⟩ := List.getElem?_eq_some_iff.mp before'
      rw [List.getElem?_append_left below, before'] at found'
      cases found'
      rw [related.index_get n i o before before' k,
        objectAt_append_left _ _ _ (related.index_inside o (List.mem_of_getElem? before'))]
    · rw [related.indexes_length, List.getElem?_concat_length] at found'
      cases found'
      rw [objectAt_append_self, x.get_new, Index.get]
      have blank : (Index.empty r params).shardAt (r.route params k) = emptyShard := by
        simp [Index.shardAt, Index.empty, r.route_lt]
      show (dictAt s.heap ((Index.empty r params).shardAt (r.route params k))).get k = none
      rw [blank, sound.empty_eq, Dict.get_empty]
  · intro n b o found found' k
    rw [related.builder_get n b o found found' k,
      objectAt_append_left _ _ _ (related.builder_inside o (List.mem_of_getElem? found'))]
  · intro o member
    rw [List.length_append, List.length_singleton]
    rcases List.mem_append.mp member with before | new
    · exact Nat.lt_succ_of_lt (related.index_inside o before)
    · rw [List.mem_singleton.mp new]
      exact Nat.lt_succ_self _
  · intro o member
    rw [List.length_append, List.length_singleton]
    exact Nat.lt_succ_of_lt (related.builder_inside o member)
  · exact related.distinct
  · intro n o found notFrozen member
    rcases List.mem_append.mp member with before | new
    · exact related.apart n o found notFrozen before
    · have inside := related.builder_inside o (List.mem_of_getElem? found)
      rw [List.mem_singleton.mp new] at inside
      exact Nat.lt_irrefl _ inside

theorem related_beginMutation (related : Related r x s p) (found : s.indexes[n]? = some i)
    (found' : p.indexes[n]? = some o) :
    Related r x ⟨s.heap, s.indexes, s.builders ++ [Builder.ofIndex i], s.frozen⟩
      ⟨p.objects ++ [objectAt x.new p.objects o], p.indexes, p.builders ++ [p.objects.length]⟩ := by
  constructor
  · exact related.indexes_length
  · simp [related.builders_length]
  · intro m j o' here here' k
    rw [related.index_get m j o' here here' k,
      objectAt_append_left _ _ _ (related.index_inside o' (List.mem_of_getElem? here'))]
  · intro m b o' here here' k
    rcases concat_cases here with before | ⟨rfl, rfl⟩
    · obtain ⟨o₂, before'⟩ := related.exists_builder before
      obtain ⟨below, -⟩ := List.getElem?_eq_some_iff.mp before'
      rw [List.getElem?_append_left below, before'] at here'
      cases here'
      rw [related.builder_get m b o' before before' k,
        objectAt_append_left _ _ _ (related.builder_inside o' (List.mem_of_getElem? before'))]
    · rw [related.builders_length, List.getElem?_concat_length] at here'
      cases here'
      rw [objectAt_append_self, ← related.index_get n i o found found' k]
      rfl
  · intro o' member
    rw [List.length_append, List.length_singleton]
    exact Nat.lt_succ_of_lt (related.index_inside o' member)
  · intro o' member
    rw [List.length_append, List.length_singleton]
    rcases List.mem_append.mp member with before | new
    · exact Nat.lt_succ_of_lt (related.builder_inside o' before)
    · rw [List.mem_singleton.mp new]
      exact Nat.lt_succ_self _
  · rw [List.nodup_append]
    refine ⟨related.distinct, List.nodup_singleton _, fun o' member o₂ new => ?_⟩
    rw [List.mem_singleton.mp new]
    exact Nat.ne_of_lt (related.builder_inside o' member)
  · intro m o' here notFrozen member
    rcases concat_cases here with before | ⟨-, rfl⟩
    · exact related.apart m o' before notFrozen member
    · exact Nat.lt_irrefl _ (related.index_inside _ member)

theorem related_freeze (sound : Sound r s) (related : Related r x s p)
    (found : s.builders[n]? = some b) (found' : p.builders[n]? = some o) :
    Related r x ⟨s.heap, s.indexes ++ [b.freeze s.heap], s.builders, n :: s.frozen⟩
      ⟨p.objects, p.indexes ++ [o], p.builders⟩ := by
  constructor
  · simp [related.indexes_length]
  · exact related.builders_length
  · intro m i o' here here' k
    rcases concat_cases here with before | ⟨rfl, rfl⟩
    · obtain ⟨o₂, before'⟩ := related.exists_index before
      obtain ⟨below, -⟩ := List.getElem?_eq_some_iff.mp before'
      rw [List.getElem?_append_left below, before'] at here'
      cases here'
      exact related.index_get m i o' before before' k
    · rw [related.indexes_length, List.getElem?_concat_length] at here'
      cases here'
      show (b.freeze s.heap).get r s.heap k = _
      rw [get_freeze sound (List.mem_of_getElem? found)]
      exact related.builder_get n b o found found' k
  · exact related.builder_get
  · intro o' member
    rcases List.mem_append.mp member with before | new
    · exact related.index_inside o' before
    · rw [List.mem_singleton.mp new]
      exact related.builder_inside o (List.mem_of_getElem? found')
  · exact related.builder_inside
  · exact related.distinct
  · intro m o' here notFrozen member
    rw [List.mem_cons, not_or] at notFrozen
    rcases List.mem_append.mp member with before | new
    · exact related.apart m o' here notFrozen.2 before
    · rw [List.mem_singleton.mp new] at here
      obtain ⟨below, eq⟩ := List.getElem?_eq_some_iff.mp here
      obtain ⟨below', eq'⟩ := List.getElem?_eq_some_iff.mp found'
      exact notFrozen.1 ((related.distinct.getElem_inj_iff).mp (eq.trans eq'.symm))

theorem related_update (related : Related r x s p) {b b' : Builder π}
    (found : s.builders[n]? = some b) (found' : p.builders[n]? = some o) {command : χ}
    {h' : Heap κ α} (quiet : Quiet r c s (.update n command))
    (wrote : Wrote r s n b (c.key command)
      (c.act command (b.get r s.heap (c.key command))).2 h' b') :
    Related r x ⟨h', s.indexes, s.builders.set n b', s.frozen⟩
      ⟨p.objects.set o (x.write (objectAt x.new p.objects o) command).2, p.indexes,
        p.builders⟩ := by
  have inside := related.builder_inside o (List.mem_of_getElem? found')
  have reading := related.builder_get n b o found found'
  obtain ⟨stored, stored_eq⟩ : ∃ stored,
      stored = (c.act command (b.get r s.heap (c.key command))).2 := ⟨_, rfl⟩
  rw [← stored_eq] at wrote
  have target (k : κ) : x.get (objectAt x.new
      (p.objects.set o (x.write (objectAt x.new p.objects o) command).2) o) k =
        written (x.get (objectAt x.new p.objects o)) (c.key command) stored k := by
    rw [objectAt_set_self _ _ inside, x.get_write, stored_eq, reading]
  constructor
  · exact related.indexes_length
  · simp [related.builders_length]
  · intro m i o' here here' k'
    show i.get r h' k' = _
    rw [wrote.index_get i (List.mem_of_getElem? here), related.index_get m i o' here here']
    by_cases same : o' = o
    · subst same
      rw [target]
      -- an index that is a builder's object was frozen from that builder
      have wasFrozen : n ∈ s.frozen := by
        by_contra notFrozen
        exact related.apart n o' found' notFrozen (List.mem_of_getElem? here')
      refine (written_of_quiet (fun v hit => ?_) k').symm
      rw [← reading]
      exact quiet wasFrozen b found v (stored_eq ▸ hit)
    · rw [objectAt_set_ne _ _ same]
  · intro m b₂ o' here here' k'
    show b₂.get r h' k' = _
    rcases set_cases here with ⟨rfl, rfl⟩ | ⟨ne, before⟩
    · cases found'.symm.trans here'
      rw [target, wrote.self_get]
      exact written_congr reading _ stored k'
    · have other : o' ≠ o := by
        intro same
        subst same
        obtain ⟨below, eq⟩ := List.getElem?_eq_some_iff.mp here'
        obtain ⟨below', eq'⟩ := List.getElem?_eq_some_iff.mp found'
        exact ne ((related.distinct.getElem_inj_iff).mp (eq.trans eq'.symm))
      rw [wrote.other_get m b₂ ne before, related.builder_get m b₂ o' before here',
        objectAt_set_ne _ _ other]
  · intro o' member
    rw [List.length_set]
    exact related.index_inside o' member
  · intro o' member
    rw [List.length_set]
    exact related.builder_inside o' member
  · exact related.distinct
  · exact related.apart

theorem step_keeps (sound : Sound r s) (quiet : Quiet r c s e)
    (stepped : step r c s e = some (next, report)) :
    Sound r next ∧ ∀ (n : Nat) i, s.indexes[n]? = some i →
      next.indexes[n]? = some i ∧ ∀ k, i.get r next.heap k = i.get r s.heap k := by
  have kept {new : Index π} {n : Nat} {i : Index π} (found : s.indexes[n]? = some i) :
      (s.indexes ++ [new])[n]? = some i := by
    obtain ⟨below, -⟩ := List.getElem?_eq_some_iff.mp found
    rw [List.getElem?_append_left below, found]
  cases e with
  | empty params =>
    rw [step, Option.some.injEq, Prod.mk.injEq] at stepped
    obtain ⟨rfl, rfl⟩ := stepped
    exact ⟨sound_empty sound params, fun n i found => ⟨kept found, fun k => rfl⟩⟩
  | beginMutation i =>
    rw [step, map_eq_some_iff] at stepped
    obtain ⟨base, found, eq⟩ := stepped
    rw [Prod.mk.injEq] at eq
    obtain ⟨rfl, rfl⟩ := eq
    exact ⟨sound_beginMutation sound found, fun n i here => ⟨here, fun k => rfl⟩⟩
  | freeze n =>
    rw [step, map_eq_some_iff] at stepped
    obtain ⟨b, found, eq⟩ := stepped
    rw [Prod.mk.injEq] at eq
    obtain ⟨rfl, rfl⟩ := eq
    exact ⟨sound_freeze sound found, fun m i here => ⟨kept here, fun k => rfl⟩⟩
  | update n command =>
    rw [step, map_eq_some_iff] at stepped
    obtain ⟨b, found, eq⟩ := stepped
    obtain ⟨h', b', updated, wrote⟩ :=
      update_wrote sound found fun frozen => quiet frozen b found
    rw [updated, Prod.mk.injEq] at eq
    obtain ⟨rfl, rfl⟩ := eq
    exact ⟨wrote.sound, fun m i here => ⟨here, wrote.index_get i (List.mem_of_getElem? here)⟩⟩

theorem step_related (sound : Sound r s) (related : Related r x s p) (quiet : Quiet r c s e)
    (stepped : step r c s e = some (next, report)) :
    ∃ p', plainStep x p e = some (p', report) ∧ Related r x next p' := by
  cases e with
  | empty params =>
    rw [step, Option.some.injEq, Prod.mk.injEq] at stepped
    obtain ⟨rfl, rfl⟩ := stepped
    exact ⟨_, rfl, related_empty sound related params⟩
  | beginMutation i =>
    rw [step, map_eq_some_iff] at stepped
    obtain ⟨base, found, eq⟩ := stepped
    rw [Prod.mk.injEq] at eq
    obtain ⟨rfl, rfl⟩ := eq
    obtain ⟨o, found'⟩ := related.exists_index found
    refine ⟨_, ?_, related_beginMutation related found found'⟩
    rw [plainStep, found', map_some]
  | freeze n =>
    rw [step, map_eq_some_iff] at stepped
    obtain ⟨b, found, eq⟩ := stepped
    rw [Prod.mk.injEq] at eq
    obtain ⟨rfl, rfl⟩ := eq
    obtain ⟨o, found'⟩ := related.exists_builder found
    refine ⟨_, ?_, related_freeze sound related found found'⟩
    rw [plainStep, found', map_some]
  | update n command =>
    rw [step, map_eq_some_iff] at stepped
    obtain ⟨b, found, eq⟩ := stepped
    obtain ⟨h', b', updated, wrote⟩ :=
      update_wrote sound found fun frozen => quiet frozen b found
    rw [updated, Prod.mk.injEq] at eq
    obtain ⟨rfl, rfl⟩ := eq
    obtain ⟨o, found'⟩ := related.exists_builder found
    have answer := x.answer_eq (objectAt x.new p.objects o) command
    rw [← related.builder_get n b o found found' (c.key command)] at answer
    refine ⟨_, ?_, related_update related found found' quiet wrote⟩
    rw [plainStep, found', map_some, ← answer]

theorem run_related (sound : Sound r s) (related : Related r x s p)
    (quiet : (machine r c).Along (Quiet r c) s es)
    (ran : (machine r c).run s es = some (last, reports)) :
    ∃ last', (plainMachine x).run p es = some (last', reports) ∧ Sound r last ∧
      Related r x last last' := by
  refine Machine.simulation_along (R := fun s p => Sound r s ∧ Related r x s p) ?_
    ⟨sound, related⟩ quiet ran
  intro s p e next report before ok stepped
  obtain ⟨p', stepped', related'⟩ := step_related before.1 before.2 ok stepped
  exact ⟨p', stepped', (step_keeps before.1 ok stepped).1, related'⟩

theorem run_keeps (sound : Sound r s) (quiet : (machine r c).Along (Quiet r c) s es)
    (ran : (machine r c).run s es = some (last, reports)) (found : s.indexes[n]? = some i) :
    last.indexes[n]? = some i ∧ ∀ k, i.get r last.heap k = i.get r s.heap k := by
  have start : Sound r s ∧ s.indexes[n]? = some i ∧ ∀ k, i.get r s.heap k = i.get r s.heap k :=
    ⟨sound, found, fun k => rfl⟩
  refine (Machine.invariant_along
    (I := fun t => Sound r t ∧ t.indexes[n]? = some i ∧ ∀ k, i.get r t.heap k = i.get r s.heap k)
    ?_ start quiet ran).2
  intro t e next report before ok stepped
  obtain ⟨sound', kept⟩ := step_keeps before.1 ok stepped
  obtain ⟨here, same⟩ := kept n i before.2.1
  exact ⟨sound', here, fun k => (same k).trans (before.2.2 k)⟩

end ProofRay.Lib.CowShards
