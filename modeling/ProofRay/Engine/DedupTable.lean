/- The retry memory of a base: the operations it still retains and what it keeps of each client
   (`horizon_artifacts.py`). -/

import Mathlib.Order.Lex
import Mathlib.Data.List.Lex
import ProofRay.Engine.Store
import ProofRay.Lib.Search

namespace ProofRay.Engine

open Lib (Dict)
open Lib.Guard
open Lib.Search (Increasing search)
open Lib.Struct (Field Record unpack unpackMany)

def dedupMagic : Bytes := ascii "HDT1"
def dedupFormatVersion : Int := 1

/-- `<4sHIIQQIII`: magic, version, scope, generation, floor, through, retention, entries,
clients. -/
abbrev dedupHeaderFormat : List Field :=
  [.bytes 4, .u16, .u32, .u32, .u64, .u64, .u32, .u32, .u32]

/-- `<16s16sQ`: operation id, content digest, original sequence. -/
abbrev dedupEntryFormat : List Field := [.bytes 16, .bytes 16, .u64]

/-- `<QQQ`: client, highest transaction seen, lowest transaction retained. -/
abbrev dedupClientFormat : List Field := [.u64, .u64, .u64]

def dedupHeaderSize : Nat := 42
def dedupEntrySize : Nat := 40
def dedupClientSize : Nat := 24

example : dedupHeaderSize = Lib.Struct.size dedupHeaderFormat ∧
    dedupEntrySize = Lib.Struct.size dedupEntryFormat ∧
    dedupClientSize = Lib.Struct.size dedupClientFormat := by decide

def bytesKey (b : Bytes) : List Nat := b.map UInt8.toNat

/-- `struct.unpack("<QQ", operation_id)`: the client and its transaction. -/
def operationParts (operationId : Bytes) : Int × Int :=
  let r := unpack [.u64, .u64] operationId
  (r.1, r.2.1)

structure DedupEntry where
  operationId : Bytes
  contentDigest : Bytes
  originalSeq : Int
  deriving DecidableEq, Repr

namespace DedupEntry

def ofRecord (r : Record dedupEntryFormat) : DedupEntry := ⟨r.1, r.2.1, r.2.2.1⟩

def toRecord (e : DedupEntry) : Record dedupEntryFormat :=
  (e.operationId, e.contentDigest, e.originalSeq, ())

def key (e : DedupEntry) : List Nat := bytesKey e.operationId

end DedupEntry

structure ClientDedupState where
  clientId : Int
  highestSeen : Int
  retainedFloor : Int
  deriving DecidableEq, Repr

namespace ClientDedupState

def ofRecord (r : Record dedupClientFormat) : ClientDedupState := ⟨r.1, r.2.1, r.2.2.1⟩

def toRecord (s : ClientDedupState) : Record dedupClientFormat :=
  (s.clientId, s.highestSeen, s.retainedFloor, ())

end ClientDedupState

def findClient (clients : List ClientDedupState) (clientId : Int) : Option ClientDedupState :=
  clients.find? fun s => s.clientId = clientId

def checkClients : List ClientDedupState → Int → Option String
  | [], _ => none
  | s :: ss, prevC =>
    if s.clientId ≤ prevC then some "clients não estritamente crescentes"
    else if s.highestSeen < s.retainedFloor then some "retained_floor_txid > highest_seen_txid"
    else checkClients ss s.clientId

def entryFault (floor through : Int) (clients : List ClientDedupState) (e : DedupEntry) :
    Option String :=
  if ¬ (floor ≤ e.originalSeq ∧ e.originalSeq ≤ through) then
    some "original_seq fora do intervalo declarado"
  else
    match findClient clients (operationParts e.operationId).1 with
    | none => some "entry sem ClientDedupState"
    | some s =>
      if ¬ (s.retainedFloor ≤ (operationParts e.operationId).2 ∧
          (operationParts e.operationId).2 ≤ s.highestSeen) then
        some "txid da entry fora de [retained_floor, highest_seen]"
      else none

def checkDedupEntries (floor through : Int) (clients : List ClientDedupState) :
    List DedupEntry → List Nat → Option String
  | [], _ => none
  | e :: es, prevO =>
    if e.key ≤ prevO then some "operation_ids não estritamente crescentes"
    else
      match entryFault floor through clients e with
      | some message => some message
      | none => checkDedupEntries floor through clients es e.key

theorem checkClients_eq_none_iff {ss : List ClientDedupState} {prevC : Int} :
    checkClients ss prevC = none ↔
      Increasing ss ClientDedupState.clientId ∧ (∀ s ∈ ss, prevC < s.clientId) ∧
        ∀ s ∈ ss, s.retainedFloor ≤ s.highestSeen := by
  induction ss generalizing prevC with
  | nil => simp [checkClients, Increasing]
  | cons s ss ih =>
    simp only [checkClients, ite_some_eq_none, ih, List.forall_mem_cons, Increasing,
      List.pairwise_cons, not_le, not_lt]
    constructor
    · rintro ⟨above, order, inc, later, orders⟩
      exact ⟨⟨later, inc⟩, ⟨above, fun s' member => lt_trans above (later s' member)⟩, order, orders⟩
    · rintro ⟨⟨later, inc⟩, ⟨above, -⟩, order, orders⟩
      exact ⟨above, order, inc, later, orders⟩

theorem checkDedupEntries_eq_none_iff {floor through : Int} {clients : List ClientDedupState}
    {es : List DedupEntry} {prevO : List Nat} :
    checkDedupEntries floor through clients es prevO = none ↔
      Increasing es DedupEntry.key ∧ (∀ e ∈ es, prevO < e.key) ∧
        ∀ e ∈ es, entryFault floor through clients e = none := by
  induction es generalizing prevO with
  | nil => simp [checkDedupEntries, Increasing]
  | cons e es ih =>
    simp only [checkDedupEntries, ite_some_eq_none, List.forall_mem_cons, Increasing,
      List.pairwise_cons, not_le]
    cases fault : entryFault floor through clients e with
    | some message => simp
    | none =>
      simp only [ih, true_and, Increasing]
      constructor
      · rintro ⟨above, inc, later, rest⟩
        exact ⟨⟨later, inc⟩, ⟨above, fun e' member => lt_trans above (later e' member)⟩, rest⟩
      · rintro ⟨⟨later, inc⟩, ⟨above, -⟩, rest⟩
        exact ⟨above, inc, later, rest⟩

/-- An open retry memory. -/
structure DedupTable where
  blob : Bytes
  scopeId : Int
  generationId : Int
  dedupFloorSeq : Int
  dedupThroughSeq : Int
  retention : Int
  entries : List DedupEntry
  clients : List ClientDedupState
  empty_floor : entries = [] → dedupFloorSeq = dedupThroughSeq + 1
  clients_increasing : Increasing clients ClientDedupState.clientId
  floor_le : ∀ s ∈ clients, s.retainedFloor ≤ s.highestSeen
  entries_increasing : Increasing entries DedupEntry.key
  entries_ok : ∀ e ∈ entries, entryFault dedupFloorSeq dedupThroughSeq clients e = none

namespace DedupTable

def mac (c : Crypto) (key header body : Bytes) : Bytes :=
  c.tag key (ascii "DEDUPTABLE" ++ header ++ body)

def ofParts (blob : Bytes) (scope gen floor through retention : Int) (entries : List DedupEntry)
    (clients : List ClientDedupState) : Except PyError DedupTable :=
  if empty : entries = [] → floor = through + 1 then
    match okClients : checkClients clients (-1) with
    | some message => .error (.integrityError message)
    | none =>
      match okEntries : checkDedupEntries floor through clients entries [] with
      | some message => .error (.integrityError message)
      | none =>
        .ok ⟨blob, scope, gen, floor, through, retention, entries, clients, empty,
          (checkClients_eq_none_iff.mp okClients).1, (checkClients_eq_none_iff.mp okClients).2.2,
          (checkDedupEntries_eq_none_iff.mp okEntries).1,
          (checkDedupEntries_eq_none_iff.mp okEntries).2.2⟩
  else .error (.integrityError "tabela vazia deve ter floor == through+1")

/-- `_parse_and_validate`. -/
def init (c : Crypto) (blob key : Bytes) : Except PyError DedupTable := do
  require (dedupHeaderSize ≤ blob.length) (.integrityError "dedup menor que header")
  let (magic, ver, scope, gen, floor, through, retention, ne, nc, _) :=
    unpack dedupHeaderFormat blob
  require (magic = dedupMagic) (.integrityError "magic de dedup inválido")
  require (ver = dedupFormatVersion) (.incompatibleError "versão de dedup não suportada")
  let entEnd := dedupHeaderSize + ne.toNat * dedupEntrySize
  let cliEnd := entEnd + nc.toNat * dedupClientSize
  require (blob.length = cliEnd + tagBytes) (.integrityError "comprimento de dedup não canônico")
  require (mac c key (blob.take dedupHeaderSize)
      ((blob.drop dedupHeaderSize).take (cliEnd - dedupHeaderSize)) = blob.drop cliEnd)
    (.integrityError "MAC de dedup inválido")
  let entries := (unpackMany dedupEntryFormat ne.toNat (blob.drop dedupHeaderSize)).map
    DedupEntry.ofRecord
  let clients := (unpackMany dedupClientFormat nc.toNat (blob.drop entEnd)).map
    ClientDedupState.ofRecord
  ofParts blob scope gen floor through retention entries clients

/-- `sorted(entries, key=..)` and `sorted(clients.items())`. -/
def build (c : Crypto) (scopeId generationId floor through retention : Int)
    (entries : List DedupEntry) (clients : Dict Int (Int × Int)) (key : Bytes) :
    Except PyError DedupTable := do
  let ents := entries.insertionSort fun a b => a.key ≤ b.key
  let clis := (clients.items.map fun i => (⟨i.1, i.2.1, i.2.2⟩ : ClientDedupState)).insertionSort
    fun a b => a.clientId ≤ b.clientId
  let header ← structPack dedupHeaderFormat
    (dedupMagic, dedupFormatVersion, scopeId, generationId, floor, through, retention,
      (ents.length : Int), (clis.length : Int), ())
  let entBody ← structPackMany dedupEntryFormat (ents.map DedupEntry.toRecord)
  let cliBody ← structPackMany dedupClientFormat (clis.map ClientDedupState.toRecord)
  init c (header ++ (entBody ++ cliBody) ++ mac c key header (entBody ++ cliBody)) key

/-- `_entry`: binary search among the operation ids. -/
def entry (t : DedupTable) (operationId : Bytes) : Option DedupEntry :=
  search t.entries DedupEntry.key (bytesKey operationId)

def probe (t : DedupTable) (operationId digest : Bytes) : Probe :=
  match t.entry operationId with
  | some e => if e.contentDigest = digest then .replay e.originalSeq else .conflict
  | none =>
    match findClient t.clients (operationParts operationId).1 with
    | none => .new
    | some s => if s.highestSeen < (operationParts operationId).2 then .new else .expired

end DedupTable
end ProofRay.Engine
