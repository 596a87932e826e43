/- The facade over the store of one scope: writes under operation ids, compaction, and the audit of
   what it has written (`api.py`, `horizon_compaction.py`). -/

import ProofRay.Engine.Batch
import ProofRay.Engine.DedupTable
import ProofRay.Lib.Machine
import ProofRay.Sidecar.Facts

namespace ProofRay.Memory

open Engine
open Lib (Dict Machine)
open Lib.Guard

/-- The base of a generation, by what its artefacts hold. -/
structure Base where
  facts : FactLine
  retry : Option DedupTable

/-- `BundleBaseView`. -/
def Base.view (b : Base) : BaseView where
  lookup factId :=
    match b.facts.get factId with
    | none => .absent
    | some fact => .fact fact
  dedupProbe operationId digest :=
    match b.retry with
    | none => .new
    | some table => table.probe operationId digest

/-- The published state of a scope: the base of its generation and the log on top of it. -/
structure Store where
  scopeId : Int
  generationId : Int
  base : Base
  index : WalIndex
  txindex : TxIdIndex
  readSeq : Int
  u8Domain : Bool

namespace Store

variable (c : Crypto) (s : Store)

/-- The version in force for a fact: the log's entry, otherwise the base's. -/
def current (factId : Int) : Option VersionedFact :=
  match s.index.get factId with
  | some fact => some fact
  | none => s.base.facts.get factId

/-- `read_fact`. -/
def read (factId : Int) : ModelRead :=
  match s.current factId with
  | none => .notFound
  | some fact => if fact.op = .delete then .deleted else .value fact.value

def classify (cmd : CommitCommand) : Except PyError Verdict :=
  classifyCommand c s.base.view s.u8Domain s.index s.txindex cmd

/-- `submit` and its receipt: a batch of one command, published where it is written. -/
def submit (cmd : CommitCommand) : Except PyError ((Status × Option Int) × Store) := do
  match ← s.classify c cmd with
  | .answer status seq => return ((status, seq), s)
  | .write op digest =>
    return ((.applied, some (s.readSeq + 1)),
      { s with
        index := (s.index.apply cmd.factId cmd.factVersion op cmd.value).2
        txindex := s.txindex.record cmd.operationId digest (s.readSeq + 1)
        readSeq := s.readSeq + 1 })

/-- `_materialize_state`: every fact that is known, the deleted ones too; the log stands over the
base. -/
def materializeState : FactLine :=
  (s.base.facts.filterKeys fun factId => (s.index.get factId).isNone).update s.index.state.items

/-- What `_merge_dedup` gathers: the entries, and for each client the highest transaction seen and
the least floor. -/
structure Merge where
  entries : Dict Bytes (Bytes × Int)
  highest : Dict Int Int
  lowest : Dict Int Int

def Merge.ofBase (table : DedupTable) : Merge where
  entries := Dict.empty.update (table.entries.map fun e =>
    (e.operationId, e.contentDigest, e.originalSeq))
  highest := Dict.empty.update (table.clients.map fun s => (s.clientId, s.highestSeen))
  lowest := Dict.empty.update (table.clients.map fun s => (s.clientId, s.retainedFloor))

def Merge.absorb (m : Merge) (e : Bytes × Bytes × Int) : Except String Merge :=
  if (m.entries.get e.1).isSome then
    .error ("colisão base×WAL de dedup: " ++ Sidecar.hexText e.1)
  else
    let (client, txid) := operationParts e.1
    .ok
      { entries := m.entries.set e.1 e.2
        highest := m.highest.set client (max ((m.highest.get client).getD txid) txid)
        lowest := m.lowest.set client (min ((m.lowest.get client).getD txid) txid) }

def Merge.floor (m : Merge) (retention : Int) (client : Int) : Int :=
  max ((m.lowest.get client).getD 0) ((m.highest.get client).getD 0 - retention + 1)

def least : List Int → Option Int
  | [] => none
  | seq :: rest => some (rest.foldl min seq)

/-- `_merge_dedup`. -/
def mergeDedup (base : Option DedupTable) (txindex : TxIdIndex)
    (scopeId generationId readSeq retention : Int) (key : Bytes) :
    Except PyError (Except String DedupTable) :=
  let start : Merge :=
    match base with
    | none => ⟨Dict.empty, Dict.empty, Dict.empty⟩
    | some table => .ofBase table
  match txindex.m.items.foldlM Merge.absorb start with
  | .error why => .ok (.error why)
  | .ok m =>
    let retention := max 1 retention
    let kept := m.entries.items.filter fun e =>
      m.floor retention (operationParts e.1).1 ≤ (operationParts e.1).2
    let floor := (least (kept.map fun e => e.2.2)).getD (readSeq + 1)
    let clients := Dict.empty.update (m.highest.items.map fun e =>
      (e.1, e.2, m.floor retention e.1))
    (DedupTable.build c scopeId generationId floor readSeq retention
      (kept.map fun e => ⟨e.1, e.2.1, e.2.2⟩) clients key).map .ok

/-- `prepare_compaction`, its publication and `activate_compacted`, where they go through: the facts
and the retry memory of the log become a base. -/
def compacted (key : Bytes) : Except PyError (Except String Store) :=
  let facts := s.materializeState
  match facts.items.find? fun e => e.2.op ≠ .delete ∧ ¬ isU8Value e.2.value with
  | some e => .ok (.error ("valor fora do domínio u8: fact " ++ toString e.1))
  | none => do
    match ← mergeDedup c s.base.retry s.txindex s.scopeId (s.generationId + 1) s.readSeq 2 key with
    | .error why => return .error why
    | .ok retry =>
      return .ok
        { s with
          generationId := s.generationId + 1
          base := ⟨facts, some retry⟩
          index := WalIndex.init
          txindex := TxIdIndex.init
          u8Domain := true }

end Store

inductive WriteState where
  | applied
  | dedupReplay
  | versionConflict
  | staleRejected
  | idempotent
  | rejectedScope
  | overload
  deriving DecidableEq, Repr

/-- `_WRITE_MAP.get(status, WriteState.OVERLOAD)`. -/
def writeState : Status → WriteState
  | .applied => .applied
  | .dedupReplay => .dedupReplay
  | .versionConflict => .versionConflict
  | .staleRejected => .staleRejected
  | .idempotent => .idempotent
  | _ => .overload

structure WriteResult where
  state : WriteState
  seq : Option Int
  deriving DecidableEq, Repr

/-- What the facade remembers of a fact it has written. -/
inductive Kind where
  | live
  | deleted
  deriving DecidableEq, Repr

def Kind.of : Op → Kind
  | .put => .live
  | .delete => .deleted

/-- What becomes of a write: it is answered, or the activation of the writer or the wait for the
receipt raises, and then the command may still be written later. -/
inductive Fate where
  | decided
  | failed
  deriving DecidableEq, Repr

inductive CompactState where
  | compacted
  | nothingToDo
  | failed
  | poisoned
  | incompatible
  deriving DecidableEq, Repr

structure CompactResult where
  state : CompactState
  generationId : Option Int
  reason : String
  deriving DecidableEq, Repr

/-- What becomes of a compaction: it goes through, it fails before its publication, or it is
published and no writer takes over. -/
inductive CompactFate where
  | decided
  | failed (state : CompactState) (why : String)
  | unactivated (why : String)
  deriving DecidableEq, Repr

/-- `AuditReport`, with the counts of its ledger. -/
structure AuditReport where
  scopeId : Int
  generationId : Option Int
  readSeq : Option Int
  cursorState : String
  invariantsOk : Bool
  findings : List String
  liveFacts : Nat
  deletedFacts : Nat
  deriving DecidableEq, Repr

/-- `HorizonMemory`. -/
structure HorizonMemory where
  scopeId : Nat
  key : Bytes
  store : Store
  writer : Bool
  pending : List CommitCommand   -- commands whose callers were told of a failure
  seen : Dict Int Kind           -- `_seen_facts`
  opidCounter : Nat

namespace HorizonMemory

variable (c : Crypto) (m : HorizonMemory)

/-- `HorizonMemory.create`, on the default generation. -/
def create (scopeId : Nat) (key : Bytes) : HorizonMemory where
  scopeId := scopeId
  key := key
  store := ⟨scopeId, 1, ⟨Dict.empty, none⟩, WalIndex.init, TxIdIndex.init, 0, false⟩
  writer := false
  pending := []
  seen := Dict.empty
  opidCounter := 0

/-- `make_operation_id`. -/
def makeOperationId (client txid : Nat) : Except PyError Bytes :=
  structPack [.u64, .u64] (client, txid, ())

def operationIdOf : Option Bytes → Except PyError Bytes
  | some operationId => .ok operationId
  | none => makeOperationId (m.scopeId % 65536) (m.opidCounter + 1)

def command (op : Op) (factId version : Int) (value : Option Int) (operationId : Option Bytes) :
    Except PyError CommitCommand := do
  let opid ← m.operationIdOf operationId
  return ⟨opid, .known op, factId, version, value, 0⟩

/-- `_submit`, and what `put` and `delete` remember of its receipt. -/
def write (fate : Fate) (op : Op) (factId version : Int) (value : Option Int)
    (operationId : Option Bytes) : Except PyError (WriteResult × HorizonMemory) := do
  let cmd ← m.command op factId version value operationId
  let m :=
    { m with opidCounter := if operationId.isSome then m.opidCounter else m.opidCounter + 1 }
  match fate with
  | .failed => return (⟨.overload, none⟩, { m with pending := m.pending ++ [cmd] })
  | .decided =>
    match m.store.submit c cmd with
    -- the worker raises, and the writer is poisoned
    | .error _ => return (⟨.overload, none⟩, m)
    | .ok ((status, seq), store) =>
      let seen :=
        if writeState status = .applied ∨ writeState status = .dedupReplay then
          m.seen.set factId (.of op)
        else m.seen
      return (⟨writeState status,
          if m.writer = false ∨ status = .applied ∨ status = .dedupReplay then seq else none⟩,
        { m with store, writer := true, seen })

/-- `HorizonMemory.put`. -/
def put (fate : Fate) (scope factId version value : Int) (operationId : Option Bytes) :
    Except PyError (WriteResult × HorizonMemory) := do
  if scope ≠ m.scopeId then return (⟨.rejectedScope, none⟩, m)
  require (0 ≤ value ∧ value ≤ 255) (.valueError "value deve ser int em [0,255]")
  m.write c fate .put factId version (some value) operationId

/-- `HorizonMemory.delete`. -/
def delete (fate : Fate) (scope factId version : Int) (operationId : Option Bytes) :
    Except PyError (WriteResult × HorizonMemory) := do
  if scope ≠ m.scopeId then return (⟨.rejectedScope, none⟩, m)
  m.write c fate .delete factId version none operationId

/-- `HorizonMemory.compact`. -/
def compact (fate : CompactFate) (scope : Int) :
    Except PyError (CompactResult × HorizonMemory) := do
  if scope ≠ m.scopeId then return (⟨.failed, none, "scope != instância"⟩, m)
  if m.writer = false then
    return (⟨.nothingToDo, none, "sem writer ativo (scope vazio)"⟩, m)
  match fate with
  | .failed state why => return (⟨state, none, why⟩, m)
  | .unactivated why =>
    match ← m.store.compacted c m.key with
    | .error why => return (⟨.incompatible, none, why⟩, m)
    | .ok store => return (⟨.failed, none, why⟩, { m with store })
  | .decided =>
    match ← m.store.compacted c m.key with
    | .error why => return (⟨.incompatible, none, why⟩, m)
    | .ok store => return (⟨.compacted, some store.generationId, "ok"⟩, { m with store })

def count (kind : Kind) : Nat := (m.seen.items.filter fun e => e.2 = kind).length

/-- `ReadState.value`. -/
def readText : ModelRead → String
  | .notFound => "not_found"
  | .deleted => "deleted"
  | .value _ => "present"

/-- `HorizonMemory.audit`. The check that the ledger adds up compares a sum with itself. -/
def audit (scope : Int) : AuditReport :=
  if scope ≠ m.scopeId then
    ⟨scope, none, none, "scope_mismatch", false, ["scope != instância"], 0, 0⟩
  else
    let findings := m.seen.items.filterMap fun e =>
      if e.2 = .deleted ∧ m.store.read e.1 ≠ .deleted then
        some ("delete não-terminal em fact " ++ toString e.1 ++ ": " ++ readText (m.store.read e.1))
      else none
    ⟨scope, some m.store.generationId, some m.store.readSeq, "VALID", findings.isEmpty, findings,
      m.count .live, m.count .deleted⟩

inductive Call where
  | put (fate : Fate) (scope factId version value : Int) (operationId : Option Bytes)
  | delete (fate : Fate) (scope factId version : Int) (operationId : Option Bytes)
  | compact (fate : CompactFate) (scope : Int)
  | audit (scope : Int)
  | arrive (n : Nat)   -- the worker writes a command whose caller was told of a failure
  deriving DecidableEq, Repr

inductive Answer where
  | wrote (result : WriteResult)
  | compacted (result : CompactResult)
  | audited (report : AuditReport)
  | raised (e : PyError)
  | none
  deriving DecidableEq, Repr

def arrive (n : Nat) : HorizonMemory :=
  match m.pending[n]? with
  | none => m
  | some cmd =>
    match m.store.submit c cmd with
    | .error _ => { m with pending := m.pending.eraseIdx n }
    | .ok (_, store) => { m with store, pending := m.pending.eraseIdx n }

def answered {α : Type} (wrap : α → Answer) :
    Except PyError (α × HorizonMemory) → HorizonMemory × Answer
  | .ok (result, next) => (next, wrap result)
  | .error e => (m, .raised e)

def call : Call → HorizonMemory × Answer
  | .put fate scope factId version value operationId =>
    m.answered .wrote (m.put c fate scope factId version value operationId)
  | .delete fate scope factId version operationId =>
    m.answered .wrote (m.delete c fate scope factId version operationId)
  | .compact fate scope => m.answered .compacted (m.compact c fate scope)
  | .audit scope => (m, .audited (m.audit scope))
  | .arrive n => (m.arrive c n, .none)

def machine : Machine HorizonMemory Call Answer where
  step m e := some (m.call c e)

end HorizonMemory

end ProofRay.Memory
