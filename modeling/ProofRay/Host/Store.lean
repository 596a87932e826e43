/- The database of the host and the requests the ledger makes of it: pages, replacements behind a
   common prefix, and replacements staged in chunks. -/

import ProofRay.Host.SidecarRecord
import ProofRay.Lib.Base64
import ProofRay.Lib.Table

namespace ProofRay.Host

open Engine (Bytes Crypto)
open Lib (Table Text)
open Lib.Guard
open Sidecar (hexSha256 isSha256)

inductive MessageRole where
  | user
  | assistant
  | system
  deriving DecidableEq, Repr

inductive AnswerAuthority where
  | proved
  | evidence
  | abstention
  | contested
  | model
  | pending
  deriving DecidableEq, Repr

/-- A row of `conversations`. -/
structure Conversation where
  id : Text
  deletedAt : Option Int
  deriving DecidableEq

/-- A row of `messages`; times are milliseconds. -/
structure Message where
  id : Text
  conversationId : Text
  sequence : Nat
  role : MessageRole
  origin : String
  authority : AnswerAuthority
  content : Text
  memoryEligible : Bool
  memoryConsulted : Bool
  memorySourceId : Option Text
  status : String
  createdAt : Int
  deletedAt : Option Int
  deriving DecidableEq

/-- The object that the payload of an operation encodes. -/
structure OutboxPayload where
  schema : String
  conversationId : Text
  messageId : Text
  text : Text
  createdAt : Int
  sequence : Nat
  memoryMode : Option String
  providerId : Option Text
  keywords : List Text
  deriving DecidableEq

/-- A row of `outbox_operations`. -/
structure OutboxOperation where
  id : Text
  operationKind : String
  payload : OutboxPayload
  state : String
  deriving DecidableEq

/-- A row of `sidecar_records`. -/
structure SidecarRow where
  sequence : Nat
  previousSha256 : String
  recordSha256 : String
  canonicalPayload : Bytes
  messageId : Option Text
  deriving DecidableEq

/-- A row of `sidecar_replacement_plans`. -/
structure ReplacementPlan where
  transactionId : String
  commonPrefix : Nat
  commonPrefixSha256 : String
  totalRecords : Nat
  deriving DecidableEq

/-- A row of `sidecar_replacement_chunks`, with the records it encodes. -/
structure ReplacementChunk where
  transactionId : String
  chunkIndex : Nat
  encodedRecords : List (List Char)
  deriving DecidableEq

def ReplacementChunk.key (chunk : ReplacementChunk) : String × Nat :=
  (chunk.transactionId, chunk.chunkIndex)

/-- What the requests read and write of the database. -/
@[ext] structure Database where
  conversations : Table Conversation.id
  messages : Table Message.id
  outbox : Table OutboxOperation.id
  sidecar : Table SidecarRow.sequence
  plans : Table ReplacementPlan.transactionId
  chunks : Table ReplacementChunk.key

namespace Database

def empty : Database := ⟨.empty, .empty, .empty, .empty, .empty, .empty⟩

def payloads (db : Database) : List Bytes := db.sidecar.rows.map SidecarRow.canonicalPayload

end Database

/-- The letters of a text for `base64Decode`, which takes those of web addresses and an escaped
padding too. -/
def dartLetters : List Char → List Char
  | '%' :: '3' :: 'D' :: rest => '=' :: dartLetters rest
  | '%' :: '3' :: 'd' :: rest => '=' :: dartLetters rest
  | '-' :: rest => '+' :: dartLetters rest
  | '_' :: rest => '/' :: dartLetters rest
  | c :: rest => c :: dartLetters rest
  | [] => []

/-- `base64Decode`. -/
def base64Decode (text : List Char) : Option Bytes := Lib.Base64.decode (dartLetters text)

structure SidecarPage where
  records : List (List Char)
  complete : Bool
  deriving DecidableEq

/-- `_loadSidecarPage`. -/
def loadSidecarPage (db : Database) (after limit : Nat) : Except Refusal SidecarPage := do
  require (1 ≤ limit ∧ limit ≤ 512) (.message "invalid sidecar page")
  let later := db.sidecar.rows.filter fun row => after < row.sequence
  let rows := (later.insertionSort fun a b => a.sequence ≤ b.sequence).take limit
  return ⟨rows.map fun row => Lib.Base64.encode row.canonicalPayload, rows.length < limit⟩

section Replacing

variable (c : Crypto)

def previousDigest (db : Database) (commonPrefix : Nat) (commonPrefixSha256 : String) :
    Except Refusal String :=
  if 0 < commonPrefix then do
    let row ← orThrow (db.sidecar.find commonPrefix) (.message "sidecar prefix digest mismatch")
    require (hexSha256 c row.canonicalPayload = commonPrefixSha256)
      (.message "sidecar prefix digest mismatch")
    return row.recordSha256
  else do
    require (commonPrefixSha256 = "") (.message "genesis prefix digest must be empty")
    return String.ofList (List.replicate 64 '0')

def validateRecords : Nat → String → List Bytes → Except Refusal (List ValidatedSidecarRecord)
  | _, _, [] => .ok []
  | sequence, previous, payload :: payloads => do
    let record ← validateSidecarRecord c payload (sequence + 1) previous
    let records ← validateRecords (sequence + 1) record.recordSha256 payloads
    return record :: records

def ValidatedSidecarRecord.row (record : ValidatedSidecarRecord) : SidecarRow :=
  ⟨record.sequence, record.previousSha256, record.recordSha256, record.payload, record.messageId⟩

/-- `UPDATE messages SET memory_eligible=? WHERE id=?`. -/
def setEligible (messages : Table Message.id) (id : Text) (eligible : Bool) : Table Message.id :=
  messages.update (fun m => if m.id = id then { m with memoryEligible := eligible } else m)
    fun m => by split <;> rfl

/-- `UPDATE outbox_operations SET state=? WHERE id=?`. -/
def setState (outbox : Table OutboxOperation.id) (id : Text) (state : String) :
    Table OutboxOperation.id :=
  outbox.update (fun o => if o.id = id then { o with state } else o)
    fun o => by split <;> rfl

def citeMessage (db : Database) (record : ValidatedSidecarRecord) : Except Refusal Database :=
  match record.messageId with
  | none => .ok db
  | some id => do
    require ((db.messages.find id).map Message.memorySourceId = some record.memorySourceId)
      (.message "sidecar message authority does not match staged source")
    return { db with
      outbox := setState db.outbox (.ofString "ingest:" ++ id) "memory_committed"
      messages := setEligible db.messages id true }

def insertRecord (db : Database) (record : ValidatedSidecarRecord) : Except Refusal Database := do
  let sidecar ← orThrow (db.sidecar.insert record.row)
    (.message "UNIQUE constraint failed: sidecar_records")
  citeMessage { db with sidecar } record

def removedMessageIds (db : Database) (commonPrefix : Nat) : List Text :=
  (db.sidecar.rows.filter fun row => commonPrefix < row.sequence).filterMap SidecarRow.messageId

/-- The transaction of `_replaceSidecarSuffix`. -/
def replaceRecords (db : Database) (commonPrefix : Nat) (commonPrefixSha256 : String)
    (records : List Bytes) : Except Refusal Database := do
  require (commonPrefix ≤ db.sidecar.rows.length)
    (.message "sidecar prefix is beyond durable state")
  let previous ← previousDigest c db commonPrefix commonPrefixSha256
  let validated ← validateRecords c commonPrefix previous records
  let cleared := { db with sidecar := db.sidecar.delete fun row => commonPrefix < row.sequence }
  let inserted ← validated.foldlM insertRecord cleared
  let surviving := validated.filterMap ValidatedSidecarRecord.messageId
  let lost := (removedMessageIds db commonPrefix).filter fun id => id ∉ surviving
  return { inserted with
    messages := lost.foldl (fun messages id => setEligible messages id false) inserted.messages }

/-- `_replaceSidecarSuffix`. -/
def replaceSidecarSuffix (db : Database) (commonPrefix : Nat) (commonPrefixSha256 : String)
    (records : List (List Char)) : Except Refusal Database := do
  let records ← records.mapM fun record => orThrow (base64Decode record) .unreadable
  replaceRecords c db commonPrefix commonPrefixSha256 records

end Replacing

/-- What `_beginSidecarReplacement` does after it has read the plan of the transaction. -/
def settlePlan (existing : Option ReplacementPlan) (db : Database) (plan : ReplacementPlan) :
    Except Refusal Database :=
  match existing with
  | none => do
    let plans ← orThrow (db.plans.insert plan)
      (.message "UNIQUE constraint failed: sidecar_replacement_plans")
    return { db with plans }
  | some other => do
    require (other.commonPrefix = plan.commonPrefix ∧
        other.commonPrefixSha256 = plan.commonPrefixSha256 ∧
        other.totalRecords = plan.totalRecords)
      (.message "staged sidecar replacement identity collision")
    return db

/-- `_beginSidecarReplacement`. -/
def beginSidecarReplacement (db : Database) (plan : ReplacementPlan) : Except Refusal Database := do
  require (isSha256 plan.transactionId = true ∧ 1 ≤ plan.totalRecords)
    (.message "invalid staged sidecar replacement")
  settlePlan (db.plans.find plan.transactionId) db plan

/-- What `_stageSidecarReplacementChunk` does after it has read the chunk of this index. -/
def settleChunk (existing : Option ReplacementChunk) (db : Database) (chunk : ReplacementChunk) :
    Except Refusal Database :=
  match existing with
  | none => do
    require ((db.plans.find chunk.transactionId).isSome) (.message "FOREIGN KEY constraint failed")
    let chunks ← orThrow (db.chunks.insert chunk)
      (.message "UNIQUE constraint failed: sidecar_replacement_chunks")
    return { db with chunks }
  | some other => do
    require (other.encodedRecords = chunk.encodedRecords)
      (.message "staged sidecar chunk identity collision")
    return db

/-- `_stageSidecarReplacementChunk`. -/
def stageSidecarReplacementChunk (db : Database) (chunk : ReplacementChunk) :
    Except Refusal Database := do
  require (isSha256 chunk.transactionId = true ∧ chunk.encodedRecords ≠ [])
    (.message "invalid staged sidecar chunk")
  settleChunk (db.chunks.find chunk.key) db chunk

def chunksOf (db : Database) (transactionId : String) : List ReplacementChunk :=
  (db.chunks.rows.filter fun chunk => chunk.transactionId = transactionId).insertionSort
    fun a b => a.chunkIndex ≤ b.chunkIndex

def joinChunks (plan : ReplacementPlan) (chunks : List ReplacementChunk) :
    Except Refusal (List (List Char)) := do
  require (chunks.map ReplacementChunk.chunkIndex = List.range chunks.length)
    (.message "staged sidecar chunks are not contiguous")
  let records := chunks.flatMap ReplacementChunk.encodedRecords
  require (records.length = plan.totalRecords) (.message "staged sidecar replacement is incomplete")
  return records

/-- The second transaction of `_commitSidecarReplacement`. -/
def dropStaging (db : Database) (transactionId : String) : Database :=
  { db with
    chunks := db.chunks.delete fun chunk => chunk.transactionId = transactionId
    plans := db.plans.delete fun plan => plan.transactionId = transactionId }

/-- What `_commitSidecarReplacement` reads before it replaces anything: the plan and its records. -/
def stagedReplacement (db : Database) (transactionId : String) :
    Except Refusal (ReplacementPlan × List (List Char)) := do
  require (isSha256 transactionId = true) (.message "invalid staged sidecar commit")
  let plan ← orThrow (db.plans.find transactionId) (.message "unknown staged sidecar replacement")
  let records ← joinChunks plan (chunksOf db transactionId)
  return (plan, records)

/-- `_commitSidecarReplacement`, without anything between its parts. -/
def commitSidecarReplacement (c : Crypto) (db : Database) (transactionId : String) :
    Except Refusal Database := do
  let (plan, records) ← stagedReplacement db transactionId
  let replaced ← replaceSidecarSuffix c db plan.commonPrefix plan.commonPrefixSha256 records
  return dropStaging replaced transactionId

end ProofRay.Host
