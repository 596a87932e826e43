/- The copy-on-write shards of L0 (`horizon_sharded.py`) beside the plain indexes they stand in
   for. -/

import ProofRay.Engine.Store
import ProofRay.Lib.CowShards

namespace ProofRay.Engine

open Lib (Dict Machine)
open Lib.Guard
open Lib.Struct (unpackFrom)
open Lib.CowShards (Routing Commands PlainIndex Heap World Plain Event dictAt objectAt
  written Sound Related)
open Lib.CowShards (items_perm items_perm_of_get machine plainMachine put related_init run_keeps
  run_related)

/-- `_splitmix64`; the width is the mask `_M64`. -/
def splitmix64 (x : BitVec 64) : BitVec 64 :=
  let x := x + 0x9E3779B97F4A7C15#64
  let z := x
  let z := (z ^^^ (z >>> 30)) * 0xBF58476D1CE4E5B9#64
  let z := (z ^^^ (z >>> 27)) * 0x94D049BB133111EB#64
  z ^^^ (z >>> 31)

def shardOfFact (factId seed : Int) (mask : Nat) : Nat :=
  (splitmix64 (BitVec.ofInt 64 factId ^^^ BitVec.ofInt 64 seed)).toNat &&& mask

/-- An id too short for its two words is refused by `struct`. -/
def shardOfOpid (operationId : Bytes) (seed : Int) (mask : Nat) : Except PyError Nat := do
  let (client, txid, _) ← orThrow (unpackFrom [.unsigned 8, .unsigned 8] operationId 0) .structError
  let inner := splitmix64 (BitVec.ofInt 64 client ^^^ BitVec.ofInt 64 seed)
  .ok ((splitmix64 (inner ^^^ BitVec.ofInt 64 txid)).toNat &&& mask)

/-- `shard_bits` and `shard_seed`. -/
structure ShardParams where
  shardBits : Nat
  shardSeed : Int
  deriving DecidableEq, Repr

def ShardParams.mask (p : ShardParams) : Nat := 1 <<< p.shardBits - 1

theorem and_mask_lt (p : ShardParams) (x : Nat) : x &&& p.mask < 1 <<< p.shardBits := by
  have positive : 0 < 1 <<< p.shardBits := by
    rw [Nat.one_shiftLeft]
    exact Nat.two_pow_pos _
  have bound : x &&& p.mask ≤ p.mask := Nat.and_le_right
  rw [ShardParams.mask] at *
  omega

def factRouting : Routing ShardParams Int where
  size p := 1 <<< p.shardBits
  route p factId := shardOfFact factId p.shardSeed p.mask
  route_lt p _ := and_mask_lt p _

abbrev ShardedWalIndex := Lib.CowShards.Index ShardParams

abbrev WalIndexBuilder := Lib.CowShards.Builder ShardParams

namespace ShardedWalIndex

def empty (shardBits : Nat) (shardSeed : Int) : ShardedWalIndex :=
  Lib.CowShards.Index.empty factRouting ⟨shardBits, shardSeed⟩

def get (h : Heap Int VersionedFact) (i : ShardedWalIndex) (factId : Int) : Option VersionedFact :=
  Lib.CowShards.Index.get factRouting h i factId

def beginMutation (i : ShardedWalIndex) : WalIndexBuilder := Lib.CowShards.Builder.ofIndex i

def items (h : Heap Int VersionedFact) (i : ShardedWalIndex) : List (Int × VersionedFact) :=
  Lib.CowShards.Index.items h i

end ShardedWalIndex

namespace WalIndexBuilder

def get (h : Heap Int VersionedFact) (b : WalIndexBuilder) (factId : Int) : Option VersionedFact :=
  Lib.CowShards.Builder.get factRouting h b factId

def apply (h : Heap Int VersionedFact) (b : WalIndexBuilder) (factId version : Int) (op : Op)
    (value : Option Int) : Decision × Heap Int VersionedFact × WalIndexBuilder :=
  let idx := shardOfFact factId b.base.params.shardSeed b.base.params.mask
  let (a, h, b) := b.mutShard h idx
  let (r, d) := applyVersioned (dictAt h a) factId version op value
  (r, h.set a d, b)

def freeze (h : Heap Int VersionedFact) (b : WalIndexBuilder) : ShardedWalIndex :=
  Lib.CowShards.Builder.freeze h b

end WalIndexBuilder

/-- The arguments of `apply`. -/
structure WalWrite where
  factId : Int
  version : Int
  op : Op
  value : Option Int
  deriving DecidableEq, Repr

def walCommands : Commands Int VersionedFact WalWrite Decision where
  key w := w.factId
  act w cur :=
    let r := preflight cur w.op w.version w.value
    (r, if r = .applied then some ⟨w.version, w.op, w.value⟩ else none)

theorem apply_eq_update (h : Heap Int VersionedFact) (b : WalIndexBuilder) (w : WalWrite) :
    WalIndexBuilder.apply h b w.factId w.version w.op w.value =
      Lib.CowShards.Builder.update factRouting h b w.factId (walCommands.act w) := by
  have written (d : FactLine) : applyVersioned d w.factId w.version w.op w.value =
      ((walCommands.act w (d.get w.factId)).1,
        put d w.factId (walCommands.act w (d.get w.factId)).2) := by
    apply Prod.ext
    · rw [applyVersioned_decision]
      rfl
    · rw [applyVersioned_state]
      simp only [walCommands]
      split <;> rfl
  simp only [WalIndexBuilder.apply, Lib.CowShards.Builder.update, written]
  rfl

theorem walIndex_get_apply (i : WalIndex) (w : WalWrite) (factId : Int) :
    (i.apply w.factId w.version w.op w.value).2.get factId =
      written i.get w.factId (walCommands.act w (i.get w.factId)).2 factId := by
  show (applyVersioned i.state w.factId w.version w.op w.value).2.get factId = _
  rw [applyVersioned_state]
  simp only [walCommands, written, WalIndex.get]
  by_cases applied : preflight (i.state.get w.factId) w.op w.version w.value = .applied
  · rw [if_pos applied, if_pos applied, Dict.get_set]
    rfl
  · rw [if_neg applied, if_neg applied, Option.none_or]
    split
    · rename_i same
      rw [same]
    · rfl

def plainWalIndex : PlainIndex WalIndex walCommands where
  new := .init
  get := WalIndex.get
  write i w := i.apply w.factId w.version w.op w.value
  get_new _ := rfl
  answer_eq i w := applyVersioned_decision i.state w.factId w.version w.op w.value
  get_write := walIndex_get_apply

def shardedWal : Machine (World ShardParams Int VersionedFact) (Event ShardParams WalWrite)
    (Option Decision) :=
  machine factRouting walCommands

def plainWal : Machine (Plain WalIndex) (Event ShardParams WalWrite) (Option Decision) :=
  plainMachine plainWalIndex

/-- An id of 128 bits, or of more. -/
structure OperationId where
  bytes : Bytes
  wide : 16 ≤ bytes.length

def opidRouting : Routing ShardParams Bytes where
  size p := 1 <<< p.shardBits
  route p operationId :=
    match shardOfOpid operationId p.shardSeed p.mask with
    | .ok idx => idx
    | .error _ => 0
  route_lt p operationId := by
    show (match shardOfOpid operationId p.shardSeed p.mask with
      | .ok idx => idx
      | .error _ => 0) < _
    cases routed : shardOfOpid operationId p.shardSeed p.mask with
    | error e =>
      show 0 < 1 <<< p.shardBits
      rw [Nat.one_shiftLeft]
      exact Nat.two_pow_pos _
    | ok idx =>
      rw [shardOfOpid, bind_eq_ok] at routed
      obtain ⟨words, -, eq⟩ := routed
      obtain rfl := Except.ok.inj eq
      exact and_mask_lt p _

theorem shardOfOpid_eq_ok (id : OperationId) (p : ShardParams) :
    shardOfOpid id.bytes p.shardSeed p.mask = .ok (opidRouting.route p id.bytes) := by
  have read : ∃ words, unpackFrom [.unsigned 8, .unsigned 8] id.bytes 0 = some words := by
    have wide : 0 + Lib.Struct.size [.unsigned 8, .unsigned 8] ≤ id.bytes.length := id.wide
    rw [unpackFrom, if_pos wide]
    exact ⟨_, rfl⟩
  obtain ⟨words, read⟩ := read
  have ok : ∃ idx, shardOfOpid id.bytes p.shardSeed p.mask = .ok idx := by
    rw [shardOfOpid, read]
    exact ⟨_, rfl⟩
  obtain ⟨idx, ok⟩ := ok
  simp only [opidRouting, ok]

abbrev ShardedTxIdIndex := Lib.CowShards.Index ShardParams

abbrev TxIdIndexBuilder := Lib.CowShards.Builder ShardParams

/-- What an entry answers to `check`. -/
def checkEntry (e : Option (Bytes × Int)) (digest : Bytes) : TxCheck :=
  match e with
  | none => .new
  | some e => if e.1 = digest then .dedupReplay else .txidConflict

namespace ShardedTxIdIndex

def empty (shardBits : Nat) (shardSeed : Int) : ShardedTxIdIndex :=
  Lib.CowShards.Index.empty opidRouting ⟨shardBits, shardSeed⟩

def entry (h : Heap Bytes (Bytes × Int)) (i : ShardedTxIdIndex) (operationId : Bytes) :
    Except PyError (Option (Bytes × Int)) := do
  let idx ← shardOfOpid operationId i.params.shardSeed i.params.mask
  .ok ((dictAt h (i.shardAt idx)).get operationId)

def check (h : Heap Bytes (Bytes × Int)) (i : ShardedTxIdIndex) (operationId digest : Bytes) :
    Except PyError TxCheck := do
  let e ← entry h i operationId
  .ok (checkEntry e digest)

def getSeq (h : Heap Bytes (Bytes × Int)) (i : ShardedTxIdIndex) (operationId : Bytes) :
    Except PyError (Option Int) := do
  let e ← entry h i operationId
  .ok (e.map Prod.snd)

def beginMutation (i : ShardedTxIdIndex) : TxIdIndexBuilder := Lib.CowShards.Builder.ofIndex i

def items (h : Heap Bytes (Bytes × Int)) (i : ShardedTxIdIndex) : List (Bytes × Bytes × Int) :=
  Lib.CowShards.Index.items h i

end ShardedTxIdIndex

namespace TxIdIndexBuilder

def entry (h : Heap Bytes (Bytes × Int)) (b : TxIdIndexBuilder) (operationId : Bytes) :
    Except PyError (Option (Bytes × Int)) := do
  let idx ← shardOfOpid operationId b.base.params.shardSeed b.base.params.mask
  match b.dirty.get idx with
  | some a => .ok ((dictAt h a).get operationId)
  | none => .ok ((dictAt h (b.base.shardAt idx)).get operationId)

def check (h : Heap Bytes (Bytes × Int)) (b : TxIdIndexBuilder) (operationId digest : Bytes) :
    Except PyError TxCheck := do
  let e ← entry h b operationId
  .ok (checkEntry e digest)

def getSeq (h : Heap Bytes (Bytes × Int)) (b : TxIdIndexBuilder) (operationId : Bytes) :
    Except PyError (Option Int) := do
  let e ← entry h b operationId
  .ok (e.map Prod.snd)

def record (h : Heap Bytes (Bytes × Int)) (b : TxIdIndexBuilder) (operationId digest : Bytes)
    (seq : Int) : Except PyError (Heap Bytes (Bytes × Int) × TxIdIndexBuilder) := do
  let idx ← shardOfOpid operationId b.base.params.shardSeed b.base.params.mask
  let (a, h, b) := b.mutShard h idx
  .ok (h.set a ((dictAt h a).set operationId (digest, seq)), b)

def freeze (h : Heap Bytes (Bytes × Int)) (b : TxIdIndexBuilder) : ShardedTxIdIndex :=
  Lib.CowShards.Builder.freeze h b

end TxIdIndexBuilder

/-- The arguments of `record`. -/
structure TxWrite where
  operationId : OperationId
  digest : Bytes
  seq : Int

def txCommands : Commands Bytes (Bytes × Int) TxWrite Unit where
  key w := w.operationId.bytes
  act w _ := ((), some (w.digest, w.seq))

theorem entry_eq_get (h : Heap Bytes (Bytes × Int)) (i : ShardedTxIdIndex) (id : OperationId) :
    ShardedTxIdIndex.entry h i id.bytes =
      .ok (Lib.CowShards.Index.get opidRouting h i id.bytes) := by
  rw [ShardedTxIdIndex.entry, shardOfOpid_eq_ok]
  rfl

theorem builder_entry_eq_get (h : Heap Bytes (Bytes × Int)) (b : TxIdIndexBuilder)
    (id : OperationId) :
    TxIdIndexBuilder.entry h b id.bytes =
      .ok (Lib.CowShards.Builder.get opidRouting h b id.bytes) := by
  rw [TxIdIndexBuilder.entry, shardOfOpid_eq_ok, Lib.CowShards.Builder.get]
  show (match b.dirty.get (opidRouting.route b.base.params id.bytes) with
    | some a => _
    | none => _) = _
  cases b.dirty.get (opidRouting.route b.base.params id.bytes) with
  | some a => rfl
  | none => rfl

theorem record_eq_update (h : Heap Bytes (Bytes × Int)) (b : TxIdIndexBuilder) (w : TxWrite) :
    TxIdIndexBuilder.record h b w.operationId.bytes w.digest w.seq =
      .ok (Lib.CowShards.Builder.update opidRouting h b w.operationId.bytes
        (txCommands.act w)).2 := by
  rw [TxIdIndexBuilder.record, shardOfOpid_eq_ok]
  rfl

theorem txIdIndex_get_record (t : TxIdIndex) (w : TxWrite) (operationId : Bytes) :
    (t.record w.operationId.bytes w.digest w.seq).m.get operationId =
      written t.m.get w.operationId.bytes (some (w.digest, w.seq)) operationId := by
  rw [TxIdIndex.record, Dict.get_set, written, Option.some_or]

def plainTxIdIndex : PlainIndex TxIdIndex txCommands where
  new := .init
  get t := t.m.get
  write t w := ((), t.record w.operationId.bytes w.digest w.seq)
  get_new _ := rfl
  answer_eq _ _ := rfl
  get_write := txIdIndex_get_record

def shardedTx : Machine (World ShardParams Bytes (Bytes × Int)) (Event ShardParams TxWrite)
    (Option Unit) :=
  machine opidRouting txCommands

def plainTx : Machine (Plain TxIdIndex) (Event ShardParams TxWrite) (Option Unit) :=
  plainMachine plainTxIdIndex

/-- The sharded index and builder of every number answer as the plain ones. -/
structure SameWal (s : World ShardParams Int VersionedFact) (p : Plain WalIndex) : Prop where
  indexes_length : s.indexes.length = p.indexes.length
  builders_length : s.builders.length = p.builders.length
  get : ∀ (n : Nat) i o, s.indexes[n]? = some i → p.indexes[n]? = some o → ∀ factId,
    ShardedWalIndex.get s.heap i factId = (objectAt .init p.objects o).get factId
  items : ∀ (n : Nat) i o, s.indexes[n]? = some i → p.indexes[n]? = some o →
    (ShardedWalIndex.items s.heap i).Perm (objectAt WalIndex.init p.objects o).state.items
  builder_get : ∀ (n : Nat) b o, s.builders[n]? = some b → p.builders[n]? = some o → ∀ factId,
    WalIndexBuilder.get s.heap b factId = (objectAt .init p.objects o).get factId

structure SameTx (s : World ShardParams Bytes (Bytes × Int)) (p : Plain TxIdIndex) : Prop where
  indexes_length : s.indexes.length = p.indexes.length
  builders_length : s.builders.length = p.builders.length
  check : ∀ (n : Nat) i o, s.indexes[n]? = some i → p.indexes[n]? = some o →
    ∀ (id : OperationId) digest, ShardedTxIdIndex.check s.heap i id.bytes digest =
      .ok ((objectAt .init p.objects o).check id.bytes digest)
  getSeq : ∀ (n : Nat) i o, s.indexes[n]? = some i → p.indexes[n]? = some o →
    ∀ id : OperationId, ShardedTxIdIndex.getSeq s.heap i id.bytes =
      .ok ((objectAt .init p.objects o).getSeq id.bytes)
  items : ∀ (n : Nat) i o, s.indexes[n]? = some i → p.indexes[n]? = some o →
    (ShardedTxIdIndex.items s.heap i).Perm (objectAt TxIdIndex.init p.objects o).m.items
  builder_check : ∀ (n : Nat) b o, s.builders[n]? = some b → p.builders[n]? = some o →
    ∀ (id : OperationId) digest, TxIdIndexBuilder.check s.heap b id.bytes digest =
      .ok ((objectAt .init p.objects o).check id.bytes digest)
  builder_getSeq : ∀ (n : Nat) b o, s.builders[n]? = some b → p.builders[n]? = some o →
    ∀ id : OperationId, TxIdIndexBuilder.getSeq s.heap b id.bytes =
      .ok ((objectAt .init p.objects o).getSeq id.bytes)

def WalQuiet (s : World ShardParams Int VersionedFact) : Event ShardParams WalWrite → Prop
  | .update n w => n ∈ s.frozen → ∀ b, s.builders[n]? = some b →
      preflight (WalIndexBuilder.get s.heap b w.factId) w.op w.version w.value ≠ .applied
  | _ => True

def TxQuiet (s : World ShardParams Bytes (Bytes × Int)) : Event ShardParams TxWrite → Prop
  | .update n w => n ∈ s.frozen → ∀ b, s.builders[n]? = some b →
      TxIdIndexBuilder.entry s.heap b w.operationId.bytes = .ok (some (w.digest, w.seq))
  | _ => True

theorem quiet_of_walQuiet {s : World ShardParams Int VersionedFact}
    {e : Event ShardParams WalWrite} (quiet : WalQuiet s e) :
    Lib.CowShards.Quiet factRouting walCommands s e := by
  cases e with
  | empty p => trivial
  | beginMutation i => trivial
  | freeze n => trivial
  | update n w =>
    intro frozen b found v stored
    have held := quiet frozen b found
    change (if preflight (WalIndexBuilder.get s.heap b w.factId) w.op w.version w.value = .applied
      then some _ else none) = some v at stored
    rw [if_neg held] at stored
    cases stored

variable {s : World ShardParams Bytes (Bytes × Int)} {es : List (Event ShardParams WalWrite)}
  {reports : List (Option Decision)}

theorem quiet_of_txQuiet {e : Event ShardParams TxWrite} (quiet : TxQuiet s e) :
    Lib.CowShards.Quiet opidRouting txCommands s e := by
  cases e with
  | empty p => trivial
  | beginMutation i => trivial
  | freeze n => trivial
  | update n w =>
    intro frozen b found v stored
    have held := quiet frozen b found
    rw [builder_entry_eq_get, Except.ok.injEq] at held
    exact held.trans stored

theorem sameWal {s : World ShardParams Int VersionedFact} {p : Plain WalIndex}
    (sound : Sound factRouting s) (related : Related factRouting plainWalIndex s p) :
    SameWal s p where
  indexes_length := related.indexes_length
  builders_length := related.builders_length
  get := related.index_get
  items n i o found found' :=
    items_perm (sound.index_ok i (List.mem_of_getElem? found))
      (related.index_get n i o found found')
  builder_get := related.builder_get

theorem sameTx {p : Plain TxIdIndex} (sound : Sound opidRouting s)
    (related : Related opidRouting plainTxIdIndex s p) :
    SameTx s p where
  indexes_length := related.indexes_length
  builders_length := related.builders_length
  check := by
    intro n i o found found' id digest
    rw [ShardedTxIdIndex.check, entry_eq_get, related.index_get n i o found found']
    rfl
  getSeq := by
    intro n i o found found' id
    rw [ShardedTxIdIndex.getSeq, entry_eq_get, related.index_get n i o found found']
    rfl
  items n i o found found' :=
    items_perm (sound.index_ok i (List.mem_of_getElem? found))
      (related.index_get n i o found found')
  builder_check := by
    intro n b o found found' id digest
    rw [TxIdIndexBuilder.check, builder_entry_eq_get, related.builder_get n b o found found']
    rfl
  builder_getSeq := by
    intro n b o found found' id
    rw [TxIdIndexBuilder.getSeq, builder_entry_eq_get, related.builder_get n b o found found']
    rfl

def WalKept (before after : World ShardParams Int VersionedFact) : Prop :=
  ∀ (n : Nat) i, before.indexes[n]? = some i → after.indexes[n]? = some i ∧
    (∀ factId, ShardedWalIndex.get after.heap i factId = ShardedWalIndex.get before.heap i factId) ∧
    (ShardedWalIndex.items after.heap i).Perm (ShardedWalIndex.items before.heap i)

def TxKept (before after : World ShardParams Bytes (Bytes × Int)) : Prop :=
  ∀ (n : Nat) i, before.indexes[n]? = some i → after.indexes[n]? = some i ∧
    (∀ (id : OperationId) digest, ShardedTxIdIndex.check after.heap i id.bytes digest =
      ShardedTxIdIndex.check before.heap i id.bytes digest) ∧
    (∀ id : OperationId, ShardedTxIdIndex.getSeq after.heap i id.bytes =
      ShardedTxIdIndex.getSeq before.heap i id.bytes) ∧
    (ShardedTxIdIndex.items after.heap i).Perm (ShardedTxIdIndex.items before.heap i)

theorem wal_run_related {last : World ShardParams Int VersionedFact}
    (quiet : shardedWal.Along WalQuiet World.init es)
    (ran : shardedWal.run World.init es = some (last, reports)) :
    ∃ p, plainWal.run Plain.init es = some (p, reports) ∧ Sound factRouting last ∧
      SameWal last p := by
  have quietly := quiet.mono fun s e => quiet_of_walQuiet
  obtain ⟨p, ran', sound, related⟩ := run_related Lib.CowShards.sound_init
    (related_init (x := plainWalIndex)) quietly ran
  exact ⟨p, ran', sound, sameWal sound related⟩

theorem tx_run_related {es : List (Event ShardParams TxWrite)}
    {last : World ShardParams Bytes (Bytes × Int)} {reports : List (Option Unit)}
    (quiet : shardedTx.Along TxQuiet World.init es)
    (ran : shardedTx.run World.init es = some (last, reports)) :
    ∃ p, plainTx.run Plain.init es = some (p, reports) ∧ Sound opidRouting last ∧
      SameTx last p := by
  have quietly := quiet.mono fun s e => quiet_of_txQuiet
  obtain ⟨p, ran', sound, related⟩ := run_related Lib.CowShards.sound_init
    (related_init (x := plainTxIdIndex)) quietly ran
  exact ⟨p, ran', sound, sameTx sound related⟩

theorem walKept_of_run {s last : World ShardParams Int VersionedFact} (sound : Sound factRouting s)
    (quiet : shardedWal.Along WalQuiet s es) (ran : shardedWal.run s es = some (last, reports))
    (sound' : Sound factRouting last) : WalKept s last := by
  intro n i found
  have quietly := quiet.mono fun s e => quiet_of_walQuiet
  obtain ⟨here, same⟩ := run_keeps sound quietly ran found
  have before := sound.index_ok i (List.mem_of_getElem? found)
  have after := sound'.index_ok i (List.mem_of_getElem? here)
  exact ⟨here, same, items_perm_of_get after before same⟩

theorem txKept_of_run {s last : World ShardParams Bytes (Bytes × Int)}
    (sound : Sound opidRouting s) {es : List (Event ShardParams TxWrite)}
    (quiet : shardedTx.Along TxQuiet s es) {reports : List (Option Unit)}
    (ran : shardedTx.run s es = some (last, reports)) (sound' : Sound opidRouting last) :
    TxKept s last := by
  intro n i found
  have quietly := quiet.mono fun s e => quiet_of_txQuiet
  obtain ⟨here, same⟩ := run_keeps sound quietly ran found
  have before := sound.index_ok i (List.mem_of_getElem? found)
  have after := sound'.index_ok i (List.mem_of_getElem? here)
  have entry (id : OperationId) : ShardedTxIdIndex.entry last.heap i id.bytes =
      ShardedTxIdIndex.entry s.heap i id.bytes := by
    rw [entry_eq_get, entry_eq_get, same]
  refine ⟨here, ?_, ?_, items_perm_of_get after before same⟩
  · intro id digest
    rw [ShardedTxIdIndex.check, entry, ShardedTxIdIndex.check]
  · intro id
    rw [ShardedTxIdIndex.getSeq, entry, ShardedTxIdIndex.getSeq]

/-- Sharded indexes are plain indexes to every program whose builders change nothing after
they were frozen: the same answers, the same items, and every index there was at some moment
keeps its answers to the end. -/
theorem shards_equal_plain (es es' : List (Event ShardParams WalWrite))
    (ts ts' : List (Event ShardParams TxWrite)) :
    (∀ middle last reports reports',
      shardedWal.Along WalQuiet World.init (es ++ es') →
      shardedWal.run World.init es = some (middle, reports) →
      shardedWal.run middle es' = some (last, reports') →
      (∃ p, plainWal.run Plain.init (es ++ es') = some (p, reports ++ reports') ∧
        SameWal last p) ∧ WalKept middle last) ∧
    (∀ middle last reports reports',
      shardedTx.Along TxQuiet World.init (ts ++ ts') →
      shardedTx.run World.init ts = some (middle, reports) →
      shardedTx.run middle ts' = some (last, reports') →
      (∃ p, plainTx.run Plain.init (ts ++ ts') = some (p, reports ++ reports') ∧
        SameTx last p) ∧ TxKept middle last) := by
  constructor
  · intro middle last reports reports' quiet ran ran'
    obtain ⟨first, second⟩ := Machine.along_append quiet ran
    have whole := (shardedWal.run_append_eq_some).mpr ⟨middle, reports, reports', ran, ran', rfl⟩
    obtain ⟨p, plain, sound', same⟩ := wal_run_related quiet whole
    obtain ⟨-, -, sound, -⟩ := wal_run_related first ran
    exact ⟨⟨p, plain, same⟩, walKept_of_run sound second ran' sound'⟩
  · intro middle last reports reports' quiet ran ran'
    obtain ⟨first, second⟩ := Machine.along_append quiet ran
    have whole := (shardedTx.run_append_eq_some).mpr ⟨middle, reports, reports', ran, ran', rfl⟩
    obtain ⟨p, plain, sound', same⟩ := tx_run_related quiet whole
    obtain ⟨-, -, sound, -⟩ := tx_run_related first ran
    exact ⟨⟨p, plain, same⟩, txKept_of_run sound second ran' sound'⟩

def firstWrites : List (Event ShardParams WalWrite) :=
  [.empty ⟨1, 0⟩, .beginMutation 0, .update 0 ⟨5, 1, .put, some 7⟩, .freeze 0]

def firstId : OperationId := ⟨zeros 16, by decide⟩

def firstRecords : List (Event ShardParams TxWrite) :=
  [.empty ⟨1, 0⟩, .beginMutation 0, .update 0 ⟨firstId, [1], 1⟩, .freeze 0]

theorem shards_equal_plain_first :
    (∃ middle last reports reports' p, shardedWal.run World.init firstWrites =
        some (middle, reports) ∧
      shardedWal.run middle [.beginMutation 1, .update 1 ⟨5, 2, .put, some 8⟩] =
        some (last, reports') ∧
      plainWal.run Plain.init
        (firstWrites ++ [.beginMutation 1, .update 1 ⟨5, 2, .put, some 8⟩]) =
        some (p, reports ++ reports') ∧ SameWal last p ∧ WalKept middle last) ∧
    (∃ middle last reports reports' p, shardedTx.run World.init firstRecords =
        some (middle, reports) ∧
      shardedTx.run middle [.update 0 ⟨firstId, [1], 1⟩] = some (last, reports') ∧
      plainTx.run Plain.init (firstRecords ++ [.update 0 ⟨firstId, [1], 1⟩]) =
        some (p, reports ++ reports') ∧ SameTx last p ∧ TxKept middle last) := by
  constructor
  · have quiet : shardedWal.Along WalQuiet World.init
        (firstWrites ++ [.beginMutation 1, .update 1 ⟨5, 2, .put, some 8⟩]) := by
      refine ⟨trivial, fun s r stepped => ?_⟩
      cases stepped
      refine ⟨trivial, fun s r stepped => ?_⟩
      cases stepped
      refine ⟨fun frozen => absurd frozen List.not_mem_nil, fun s r stepped => ?_⟩
      cases stepped
      refine ⟨trivial, fun s r stepped => ?_⟩
      cases stepped
      refine ⟨trivial, fun s r stepped => ?_⟩
      cases stepped
      refine ⟨fun frozen => ?_, fun s r stepped => trivial⟩
      exact absurd (List.mem_singleton.mp frozen) (by decide)
    obtain ⟨⟨p, plain, same⟩, kept⟩ :=
      (shards_equal_plain firstWrites _ [] []).1 _ _ _ _ quiet rfl rfl
    exact ⟨_, _, _, _, p, rfl, rfl, plain, same, kept⟩
  · have quiet : shardedTx.Along TxQuiet World.init
        (firstRecords ++ [.update 0 ⟨firstId, [1], 1⟩]) := by
      refine ⟨trivial, fun s r stepped => ?_⟩
      cases stepped
      refine ⟨trivial, fun s r stepped => ?_⟩
      cases stepped
      refine ⟨fun frozen => absurd frozen List.not_mem_nil, fun s r stepped => ?_⟩
      cases stepped
      refine ⟨trivial, fun s r stepped => ?_⟩
      cases stepped
      refine ⟨fun _ b found => ?_, fun s r stepped => trivial⟩
      cases found
      rfl
    obtain ⟨⟨p, plain, same⟩, kept⟩ :=
      (shards_equal_plain [] [] firstRecords _).2 _ _ _ _ quiet rfl rfl
    exact ⟨_, _, _, _, p, rfl, rfl, plain, same, kept⟩

/-- An operation through a builder that was frozen changes the index frozen from it. -/
theorem frozen_index_changes :
    ¬ ∀ (es es' : List (Event ShardParams WalWrite)) middle last reports reports',
      shardedWal.run World.init es = some (middle, reports) →
      shardedWal.run middle es' = some (last, reports') → WalKept middle last := by
  intro kept
  have moved := (kept firstWrites [.update 0 ⟨5, 2, .put, some 8⟩] _ _ _ _ rfl rfl 1 _ rfl).2.1 5
  revert moved
  decide

end ProofRay.Engine
