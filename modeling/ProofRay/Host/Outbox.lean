/- Messages on their way into memory (`conversation_store.dart`): staged with an operation of the
   outbox, committed with their answer, and deleted with their conversation. -/

import ProofRay.Host.Chain
import ProofRay.Lib.Machine

namespace ProofRay.Host

open Engine (Crypto)
open Lib (Machine Table Text)
open Lib.Guard

inductive MemoryMode where
  | tool
  | keywords
  | forceNext
  | off
  deriving DecidableEq, Repr

def MemoryMode.name : MemoryMode → String
  | .tool => "tool"
  | .keywords => "keywords"
  | .forceNext => "forceNext"
  | .off => "off"

def MemoryMode.values : List MemoryMode := [.tool, .keywords, .forceNext, .off]

/-- A message of a chat, without the proof it displays; its time is in microseconds. -/
structure ChatMessage where
  id : Text
  role : MessageRole
  text : Text
  createdAt : Int
  authority : AnswerAuthority
  memoryConsulted : Bool
  certificateHex : Option String
  deriving DecidableEq

def ChatMessage.plain (id : Text) (role : MessageRole) (text : Text) (createdAt : Int)
    (authority : AnswerAuthority) : ChatMessage :=
  ⟨id, role, text, createdAt, authority, false, none⟩

structure PendingUserMessage where
  conversationId : Text
  sequence : Nat
  message : ChatMessage
  memoryMode : MemoryMode
  keywords : List Text
  confirmation : Bool
  providerId : Option Text
  deriving DecidableEq

def ingestId (id : Text) : Text := .ofString "ingest:" ++ id

def confirmId (id : Text) : Text := .ofString "confirm:" ++ id

def answerId (id : Text) : Text := .ofString "answer_" ++ id

def sourceId (conversationId id : Text) : Text :=
  .ofString "conversation:" ++ conversationId ++ .ofString ":" ++ id

section

variable (db : Database)

/-- `_insertMessage`. -/
def insertMessage (conversationId : Text) (sequence : Nat) (message : ChatMessage)
    (status : String) (memorySourceId : Option Text) : Except Refusal Database := do
  require ((db.conversations.find conversationId).isSome) (.message "FOREIGN KEY constraint failed")
  require (∀ m ∈ db.messages.rows, m.conversationId = conversationId → m.sequence = sequence →
      m.id = message.id)
    (.message "UNIQUE constraint failed: messages.conversation_id, messages.sequence")
  return { db with messages := db.messages.upsert {
    id := message.id
    conversationId := conversationId
    sequence := sequence
    role := message.role
    origin := if message.role = .user then "user" else "proofray_or_model"
    authority := message.authority
    content := message.text
    memoryEligible := false
    memoryConsulted := message.memoryConsulted
    memorySourceId := memorySourceId
    status := status
    createdAt := message.createdAt.tdiv 1000
    deletedAt := none } }

/-- `UPDATE messages SET status=? WHERE id=?`. -/
def setStatus (messages : Table Message.id) (id : Text) (status : String) : Table Message.id :=
  messages.update (fun m => if m.id = id then { m with status } else m)
    fun m => by split <;> rfl

/-- `UPDATE messages SET deleted_at=? WHERE conversation_id=?`. -/
def setDeleted (messages : Table Message.id) (conversationId : Text) (now : Int) :
    Table Message.id :=
  messages.update
    (fun m => if m.conversationId = conversationId then { m with deletedAt := some now } else m)
    fun m => by split <;> rfl

def hexDigits : List Char := "0123456789abcdef".toList

/-- `_insertProof`, of which only the check of the certificate is seen here. -/
def insertProof (message : ChatMessage) : Except Refusal Unit :=
  require (∀ hex ∈ message.certificateHex,
      hex.toList ≠ [] ∧ (hex.toList.all fun c => c ∈ hexDigits) ∧ hex.length % 2 = 0)
    (.message "proof certificate is not canonical hex")

/-- `ensureConversation`; a mark of deletion stays. -/
def ensureConversation (conversationId : Text) : Database :=
  match db.conversations.find conversationId with
  | some _ => db
  | none => { db with conversations := db.conversations.upsert ⟨conversationId, none⟩ }

/-- `stageUserMessage`. -/
def stageUserMessage (conversationId : Text) (sequence : Nat) (message : ChatMessage)
    (memoryMode : MemoryMode) (providerId : Option Text) (keywords : List Text) :
    Except Refusal Database := do
  let db ← insertMessage db conversationId sequence message "pending"
    (some (sourceId conversationId message.id))
  let db ← insertMessage db conversationId (sequence + 1)
    (.plain (answerId message.id) .assistant [] message.createdAt .pending) "pending" none
  return { db with outbox := db.outbox.upsert {
    id := ingestId message.id
    operationKind := "message.ingest"
    payload := {
      schema := "proofray.app.outbox.message.v1"
      conversationId := conversationId
      messageId := message.id
      text := message.text
      createdAt := message.createdAt
      sequence := sequence
      memoryMode := some memoryMode.name
      providerId := providerId
      keywords := keywords }
    state := "pending" } }

/-- `stageConfirmedObservation`. -/
def stageConfirmedObservation (conversationId : Text) (sequence : Nat) (message : ChatMessage) :
    Except Refusal Database := do
  let db ← insertMessage db conversationId sequence message "pending"
    (some (sourceId conversationId message.id))
  return { db with outbox := db.outbox.upsert {
    id := confirmId message.id
    operationKind := "memory.confirm"
    payload := {
      schema := "proofray.app.outbox.confirm.v1"
      conversationId := conversationId
      messageId := message.id
      text := message.text
      createdAt := message.createdAt
      sequence := sequence
      memoryMode := none
      providerId := none
      keywords := [] }
    state := "pending" } }

/-- `commitExchange`. -/
def commitExchange (user assistant : ChatMessage) : Except Refusal Database := do
  require (assistant.id = answerId user.id)
    (.message "assistant identity differs from its staged user turn")
  let staged ← orThrow (db.messages.find user.id)
    (.message "user message disappeared before commit")
  let committed : Database := { db with
    messages := setStatus db.messages user.id "committed"
    outbox := db.outbox.delete fun o => o.id = ingestId user.id }
  let answered ← insertMessage committed staged.conversationId (staged.sequence + 1) assistant
    "committed" none
  if assistant.memoryConsulted then insertProof assistant
  return answered

/-- `commitConfirmedObservation`. -/
def commitConfirmedObservation (message : ChatMessage) : Database :=
  { db with
    messages := setEligible (setStatus db.messages message.id "committed") message.id true
    outbox := db.outbox.delete fun o => o.id = confirmId message.id }

/-- `deleteConversationHistory`. -/
def deleteConversationHistory (conversationId : Text) (now : Int) : Database :=
  let history := (db.messages.rows.filter fun m => m.conversationId = conversationId).map Message.id
  { db with
    outbox := db.outbox.delete fun o =>
      o.id ∈ history.map ingestId ∨ o.id ∈ history.map confirmId
    messages := setDeleted db.messages conversationId now
    conversations := db.conversations.update
      (fun k => if k.id = conversationId then { k with deletedAt := some now } else k)
      fun k => by split <;> rfl }

/-- The messages that `loadMessages` returns; the proof that it joins to each is left out. -/
def loadMessages (conversationId : Text) : List Message :=
  (db.messages.rows.filter fun m => m.conversationId = conversationId ∧ m.deletedAt = none)
    |>.insertionSort fun a b => a.sequence ≤ b.sequence

def operationMode (confirmation : Bool) (payload : OutboxPayload) : Except Refusal MemoryMode :=
  if confirmation then .ok .off
  else
    orThrow (MemoryMode.values.find? fun mode => some mode.name = payload.memoryMode)
      (.message "invalid outbox memory mode")

/-- The checks of `pendingUserMessages` on an operation, and the message made from it. -/
def readOperation (o : OutboxOperation) : Except Refusal PendingUserMessage := do
  let payload := o.payload
  let confirmation : Bool := o.operationKind = "memory.confirm"
  require (payload.schema =
      (if confirmation then "proofray.app.outbox.confirm.v1"
        else "proofray.app.outbox.message.v1") ∧
      (confirmation = false → payload.memoryMode.isSome))
    (.message "invalid encrypted outbox operation")
  let memoryMode ← operationMode confirmation payload
  return {
    conversationId := payload.conversationId
    sequence := payload.sequence
    message := .plain payload.messageId .user payload.text payload.createdAt .model
    memoryMode := memoryMode
    keywords := payload.keywords
    confirmation := confirmation
    providerId := payload.providerId }

/-- The rows of the join that `pendingUserMessages` selects. -/
def pendingRows (conversationId : Text) : List (OutboxOperation × Message) :=
  db.outbox.rows.flatMap fun o =>
    (db.messages.rows.filter fun m =>
      (o.id = ingestId m.id ∨ o.id = confirmId m.id) ∧ m.conversationId = conversationId ∧
        (o.state = "pending" ∨ o.state = "memory_committed")).map fun m => (o, m)

/-- `pendingUserMessages`. -/
def pendingUserMessages (conversationId : Text) : Except Refusal (List PendingUserMessage) :=
  ((pendingRows db conversationId).insertionSort fun a b => a.2.sequence ≤ b.2.sequence).mapM
    fun row => readOperation row.1

end

/-- The transactions of a store. One that fails is rolled back, and is no event. -/
inductive HistoryEvent where
  | ensureConversation (conversationId : Text)
  | stageUserMessage (conversationId : Text) (sequence : Nat) (message : ChatMessage)
      (memoryMode : MemoryMode) (providerId : Option Text) (keywords : List Text)
  | stageConfirmedObservation (conversationId : Text) (sequence : Nat) (message : ChatMessage)
  | commitExchange (user assistant : ChatMessage)
  | commitConfirmedObservation (conversationId : Text) (message : ChatMessage)
  | replaceSidecarSuffix (commonPrefix : Nat) (commonPrefixSha256 : String)
      (records : List (List Char))
  | markMemoryPurged (messageId : Text)
  | deleteConversationHistory (conversationId : Text) (now : Int)

def historyStep (c : Crypto) (db : Database) : HistoryEvent → Except Refusal Database
  | .ensureConversation conversationId => .ok (ensureConversation db conversationId)
  | .stageUserMessage conversationId sequence message memoryMode providerId keywords =>
    stageUserMessage db conversationId sequence message memoryMode providerId keywords
  | .stageConfirmedObservation conversationId sequence message =>
    stageConfirmedObservation db conversationId sequence message
  | .commitExchange user assistant => commitExchange db user assistant
  | .commitConfirmedObservation _ message => .ok (commitConfirmedObservation db message)
  | .replaceSidecarSuffix commonPrefix commonPrefixSha256 records =>
    replaceSidecarSuffix c db commonPrefix commonPrefixSha256 records
  | .markMemoryPurged messageId =>
    .ok { db with messages := setEligible db.messages messageId false }
  | .deleteConversationHistory conversationId now =>
    .ok (deleteConversationHistory db conversationId now)

def historyMachine (c : Crypto) : Machine Database HistoryEvent Unit where
  step db e := (historyStep c db e).toOption.map fun next => (next, ())

end ProofRay.Host
