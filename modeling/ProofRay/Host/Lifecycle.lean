/- The life of a message: it waits from its staging to its commit, in every order of the
   transactions. -/

import ProofRay.Engine.Primitives
import ProofRay.Host.Outbox

namespace ProofRay.Host

open Engine (Crypto stdCrypto)
open Lib (Machine Table Text)
open Lib.Guard

variable {a b : Text}

theorem ingestId_inj : ingestId a = ingestId b ↔ a = b :=
  List.append_right_inj _

theorem confirmId_inj : confirmId a = confirmId b ↔ a = b :=
  List.append_right_inj _

theorem ingestId_ne_confirmId (a b : Text) : ingestId a ≠ confirmId b := by
  intro same
  have heads := congrArg List.head? same
  revert heads
  simp [ingestId, confirmId, Text.ofString]

def PendingUserMessage.operationId (p : PendingUserMessage) : Text :=
  if p.confirmation then confirmId p.message.id else ingestId p.message.id

variable {p : PendingUserMessage} {id : Text}

theorem operationId_eq_ingestId :
    p.operationId = ingestId id ↔ p.confirmation = false ∧ p.message.id = id := by
  unfold PendingUserMessage.operationId
  cases p.confirmation with
  | false => simpa using ingestId_inj
  | true => simpa using fun same => ingestId_ne_confirmId id p.message.id same.symm

theorem operationId_eq_confirmId :
    p.operationId = confirmId id ↔ p.confirmation = true ∧ p.message.id = id := by
  unfold PendingUserMessage.operationId
  cases p.confirmation with
  | false => simpa using ingestId_ne_confirmId p.message.id id
  | true => simpa using confirmId_inj

theorem operationId_joins :
    p.operationId = ingestId id ∨ p.operationId = confirmId id ↔ p.message.id = id := by
  rw [operationId_eq_ingestId, operationId_eq_confirmId]
  cases p.confirmation with
  | false => simp
  | true => simp

def HistoryEvent.staged : HistoryEvent → Option PendingUserMessage
  | .stageUserMessage conversationId sequence message memoryMode providerId keywords =>
    some ⟨conversationId, sequence, .plain message.id .user message.text message.createdAt .model,
      memoryMode, keywords, false, providerId⟩
  | .stageConfirmedObservation conversationId sequence message =>
    some ⟨conversationId, sequence, .plain message.id .user message.text message.createdAt .model,
      .off, [], true, none⟩
  | _ => none

def HistoryEvent.Ends (p : PendingUserMessage) : HistoryEvent → Prop
  | .stageUserMessage _ _ message _ _ _ => p.operationId = ingestId message.id
  | .stageConfirmedObservation _ _ message => p.operationId = confirmId message.id
  | .commitExchange user _ => p.operationId = ingestId user.id
  | .commitConfirmedObservation _ message => p.operationId = confirmId message.id
  | .deleteConversationHistory conversationId _ => p.conversationId = conversationId
  | _ => False

def Awaits (events : List HistoryEvent) (p : PendingUserMessage) : Prop :=
  ∃ before e after, events = before ++ e :: after ∧ e.staged = some p ∧ ∀ e' ∈ after, ¬ e'.Ends p

theorem awaits_concat {events : List HistoryEvent} {e : HistoryEvent} :
    Awaits (events ++ [e]) p ↔ e.staged = some p ∨ Awaits events p ∧ ¬ e.Ends p := by
  constructor
  · rintro ⟨before, e', after, split, staged, kept⟩
    rcases List.eq_nil_or_concat after with rfl | ⟨after, last, rfl⟩
    · obtain ⟨-, rfl⟩ := List.append_singleton_inj.mp split
      exact .inl staged
    · rw [List.concat_eq_append, ← List.cons_append, ← List.append_assoc] at split
      obtain ⟨rfl, rfl⟩ := List.append_singleton_inj.mp split
      refine .inr ⟨⟨before, e', after, rfl, staged, ?_⟩, kept e (by simp)⟩
      intro x member
      exact kept x (by simp [member])
  · rintro (staged | ⟨⟨before, e', after, rfl, staged, kept⟩, unended⟩)
    · exact ⟨events, e, [], rfl, staged, fun _ member => absurd member List.not_mem_nil⟩
    · refine ⟨before, e', after ++ [e], by simp, staged, ?_⟩
      intro x member
      rcases List.mem_append.mp member with member | member
      · exact kept x member
      · rw [List.mem_singleton.mp member]
        exact unended

/-- The operation of a message that waits. -/
structure Carries (o : OutboxOperation) (p : PendingUserMessage) : Prop where
  id : o.id = p.operationId
  state : o.state = "pending" ∨ o.state = "memory_committed"
  read : readOperation o = .ok p

/-- The outbox has an operation for each message that waits and no other, and the row of the
message is in its conversation. -/
structure Mirrors (db : Database) (awaited : PendingUserMessage → Prop) : Prop where
  carried : ∀ p, awaited p → ∃ o ∈ db.outbox.rows, Carries o p
  only : ∀ o ∈ db.outbox.rows, ∃ p, awaited p ∧ Carries o p
  placed : ∀ p, awaited p →
    (db.messages.find p.message.id).map Message.conversationId = some p.conversationId

theorem Carries.of_same {o o' : OutboxOperation} (carries : Carries o p) (id : o'.id = o.id)
    (kind : o'.operationKind = o.operationKind) (payload : o'.payload = o.payload)
    (state : o'.state = "pending" ∨ o'.state = "memory_committed") : Carries o' p := by
  refine ⟨id.trans carries.id, state, ?_⟩
  rw [← carries.read]
  simp only [readOperation, kind, payload]

section

variable {db db' : Database} {awaited : PendingUserMessage → Prop}

variable {conversationId : Text} {p : PendingUserMessage} {message : ChatMessage} {sequence : Nat}
  {o : OutboxOperation}

variable {user assistant : ChatMessage} {providerId : Option Text} {memoryMode : MemoryMode}
  {keywords : List Text} {row : Message} {m : Message}

theorem mem_pendingRows :
    (o, m) ∈ pendingRows db conversationId ↔ o ∈ db.outbox.rows ∧ m ∈ db.messages.rows ∧
      (o.id = ingestId m.id ∨ o.id = confirmId m.id) ∧ m.conversationId = conversationId ∧
      (o.state = "pending" ∨ o.state = "memory_committed") := by
  simp [pendingRows]

theorem nodup_pendingRows (db : Database) (conversationId : Text) :
    (pendingRows db conversationId).Nodup := by
  apply List.nodup_flatMap.mpr
  constructor
  · intro o _
    apply List.Nodup.map
    · intro m m' same
      exact congrArg Prod.snd same
    · exact (List.Nodup.of_map _ db.messages.distinct).filter _
  · apply (List.Nodup.of_map _ db.outbox.distinct).imp
    intro o o' other row first second
    obtain ⟨m, -, rfl⟩ := List.mem_map.mp first
    obtain ⟨m', -, same⟩ := List.mem_map.mp second
    exact other (congrArg Prod.fst same).symm

theorem Mirrors.row_iff (mirrors : Mirrors db awaited) :
    (o, m) ∈ pendingRows db conversationId ↔ ∃ p, awaited p ∧ p.conversationId = conversationId ∧
      o ∈ db.outbox.rows ∧ Carries o p ∧ db.messages.find p.message.id = some m := by
  rw [mem_pendingRows]
  constructor
  · rintro ⟨member, there, joined, here, -⟩
    obtain ⟨p, waits, carries⟩ := mirrors.only o member
    rw [carries.id, operationId_joins] at joined
    have found : db.messages.find p.message.id = some m :=
      (db.messages.find_eq_some_iff).mpr ⟨there, joined.symm⟩
    have placed := mirrors.placed p waits
    rw [found, Option.map_some, Option.some.injEq] at placed
    exact ⟨p, waits, placed.symm.trans here, member, carries, found⟩
  · rintro ⟨p, waits, rfl, member, carries, found⟩
    obtain ⟨there, same⟩ := (db.messages.find_eq_some_iff).mp found
    have placed := mirrors.placed p waits
    rw [found, Option.map_some, Option.some.injEq] at placed
    refine ⟨member, there, ?_, placed, carries.state⟩
    rw [carries.id, operationId_joins]
    exact same.symm

theorem Mirrors.pendingUserMessages (mirrors : Mirrors db awaited) (conversationId : Text) :
    ∃ found, pendingUserMessages db conversationId = .ok found ∧ found.Nodup ∧
      ∀ p, p ∈ found ↔ p.conversationId = conversationId ∧ awaited p := by
  let order := fun a b : OutboxOperation × Message => a.2.sequence ≤ b.2.sequence
  have perm : ((pendingRows db conversationId).insertionSort order).Perm
      (pendingRows db conversationId) := List.perm_insertionSort ..
  have each : ∀ row ∈ (pendingRows db conversationId).insertionSort order,
      ∃ p, readOperation row.1 = .ok p := by
    rintro ⟨o, m⟩ member
    obtain ⟨p, -, -, -, carries, -⟩ := mirrors.row_iff.mp (perm.mem_iff.mp member)
    exact ⟨p, carries.read⟩
  obtain ⟨found, read⟩ := exists_mapM_ok each
  refine ⟨found, read, ?_, ?_⟩
  · apply nodup_of_mapM_ok read (perm.nodup_iff.mpr (nodup_pendingRows db conversationId))
    rintro ⟨o, m⟩ member ⟨o', m'⟩ member' p made made'
    obtain ⟨q, -, -, there, carries, found⟩ := mirrors.row_iff.mp (perm.mem_iff.mp member)
    obtain ⟨q', -, -, there', carries', found'⟩ := mirrors.row_iff.mp (perm.mem_iff.mp member')
    obtain rfl := Except.ok.inj (carries.read.symm.trans made)
    obtain rfl := Except.ok.inj (carries'.read.symm.trans made')
    rw [found, Option.some.injEq] at found'
    rw [List.inj_on_of_nodup_map db.outbox.distinct there there'
      (carries.id.trans carries'.id.symm), found']
  · intro p
    constructor
    · intro member
      obtain ⟨⟨o, m⟩, row, made⟩ := mem_of_mapM_ok read p member
      obtain ⟨q, waits, here, -, carries, -⟩ := mirrors.row_iff.mp (perm.mem_iff.mp row)
      obtain rfl := Except.ok.inj (carries.read.symm.trans made)
      exact ⟨here, waits⟩
    · rintro ⟨here, waits⟩
      obtain ⟨o, member, carries⟩ := mirrors.carried p waits
      obtain ⟨m, there, -⟩ := Option.map_eq_some_iff.mp (mirrors.placed p waits)
      have row := mirrors.row_iff.mpr ⟨p, waits, here, member, carries, there⟩
      obtain ⟨q, among, made⟩ := exists_of_mapM_ok read (o, m) (perm.mem_iff.mpr row)
      obtain rfl := Except.ok.inj (carries.read.symm.trans made)
      exact among

def Strands (db : Database) (id conversationId operationId : Text) : Prop :=
  (∃ m, db.messages.find id = some m ∧ m.conversationId ≠ conversationId) ∧
    (db.outbox.find operationId).isSome

theorem Mirrors.conversation_eq (mirrors : Mirrors db awaited) (waits : awaited p)
    (safe : ¬ Strands db p.message.id conversationId p.operationId) :
    p.conversationId = conversationId := by
  obtain ⟨o, member, carries⟩ := mirrors.carried p waits
  obtain ⟨m, found, here⟩ := Option.map_eq_some_iff.mp (mirrors.placed p waits)
  by_contra apart
  apply safe
  refine ⟨⟨m, found, by rwa [here]⟩, ?_⟩
  rw [Option.isSome_iff_exists]
  exact ⟨o, (db.outbox.find_eq_some_iff).mpr ⟨member, carries.id⟩⟩

theorem placed_upsert {messages : Table Message.id}
    (placed : (messages.find p.message.id).map Message.conversationId = some p.conversationId)
    (kept : row.id = p.message.id → p.conversationId = row.conversationId) :
    ((messages.upsert row).find p.message.id).map Message.conversationId =
      some p.conversationId := by
  rw [Table.find_upsert]
  split
  · rename_i same
    rw [Option.map_some, kept same]
  · exact placed

theorem placed_self {messages : Table Message.id} (id : row.id = p.message.id)
    (here : row.conversationId = p.conversationId) :
    ((messages.upsert row).find p.message.id).map Message.conversationId =
      some p.conversationId := by
  rw [Table.find_upsert, if_pos id, Option.map_some, here]

theorem placed_update {messages : Table Message.id} {f : Message → Message}
    {keeps : ∀ m, (f m).id = m.id}
    (placed : (messages.find p.message.id).map Message.conversationId = some p.conversationId)
    (still : ∀ m, (f m).conversationId = m.conversationId) :
    ((messages.update f keeps).find p.message.id).map Message.conversationId =
      some p.conversationId := by
  rw [Table.find_update, Option.map_map, show Message.conversationId ∘ f =
    Message.conversationId from funext still]
  exact placed

theorem placed_setStatus {messages : Table Message.id}
    (placed : (messages.find p.message.id).map Message.conversationId = some p.conversationId)
    (id : Text) (status : String) :
    ((setStatus messages id status).find p.message.id).map Message.conversationId =
      some p.conversationId :=
  placed_update placed fun m => by split <;> rfl

theorem placed_setEligible {messages : Table Message.id}
    (placed : (messages.find p.message.id).map Message.conversationId = some p.conversationId)
    (id : Text) (eligible : Bool) :
    ((setEligible messages id eligible).find p.message.id).map Message.conversationId =
      some p.conversationId :=
  placed_update placed fun m => by split <;> rfl

theorem placed_setDeleted {messages : Table Message.id}
    (placed : (messages.find p.message.id).map Message.conversationId = some p.conversationId)
    (conversationId : Text) (now : Int) :
    ((setDeleted messages conversationId now).find p.message.id).map Message.conversationId =
      some p.conversationId :=
  placed_update placed fun m => by split <;> rfl

theorem Mirrors.stage (mirrors : Mirrors db awaited) {new : PendingUserMessage}
    {o : OutboxOperation} (carries : Carries o new) (outbox : db'.outbox = db.outbox.upsert o)
    (placed : ∀ p, new = p ∨ awaited p ∧ p.operationId ≠ new.operationId →
      (db'.messages.find p.message.id).map Message.conversationId = some p.conversationId) :
    Mirrors db' fun p => new = p ∨ awaited p ∧ p.operationId ≠ new.operationId := by
  refine ⟨?_, ?_, placed⟩
  · rintro p (rfl | ⟨waits, other⟩)
    · refine ⟨o, ?_, carries⟩
      rw [outbox, Table.mem_upsert]
      exact .inl rfl
    · obtain ⟨o', member, carries'⟩ := mirrors.carried p waits
      refine ⟨o', ?_, carries'⟩
      rw [outbox, Table.mem_upsert]
      refine .inr ⟨member, ?_⟩
      rw [carries'.id, carries.id]
      exact other
  · intro o' member
    rw [outbox, Table.mem_upsert] at member
    rcases member with rfl | ⟨member, other⟩
    · exact ⟨new, .inl rfl, carries⟩
    · obtain ⟨p, waits, carries'⟩ := mirrors.only o' member
      refine ⟨p, .inr ⟨waits, ?_⟩, carries'⟩
      rw [carries'.id, carries.id] at other
      exact other

theorem Mirrors.drop (mirrors : Mirrors db awaited) {gone : OutboxOperation → Bool}
    {ended : PendingUserMessage → Prop} (outbox : db'.outbox = db.outbox.delete gone)
    (ends : ∀ o p, awaited p → Carries o p → (gone o = true ↔ ended p))
    (placed : ∀ p, awaited p →
      (db'.messages.find p.message.id).map Message.conversationId = some p.conversationId) :
    Mirrors db' fun p => awaited p ∧ ¬ ended p := by
  refine ⟨?_, ?_, fun p waits => placed p waits.1⟩
  · rintro p ⟨waits, unended⟩
    obtain ⟨o, member, carries⟩ := mirrors.carried p waits
    refine ⟨o, ?_, carries⟩
    rw [outbox, Table.mem_delete]
    refine ⟨member, ?_⟩
    rw [← Bool.not_eq_true, ends o p waits carries]
    exact unended
  · intro o member
    rw [outbox, Table.mem_delete] at member
    obtain ⟨p, waits, carries⟩ := mirrors.only o member.1
    refine ⟨p, ⟨waits, ?_⟩, carries⟩
    rw [← ends o p waits carries, Bool.not_eq_true]
    exact member.2

theorem Mirrors.congr {awaited' : PendingUserMessage → Prop} (mirrors : Mirrors db awaited)
    (same : ∀ p, awaited' p ↔ awaited p) : Mirrors db awaited' := by
  have same : awaited' = awaited := funext fun p => propext (same p)
  rw [same]
  exact mirrors

theorem insertMessage_eq_ok {status : String} {source : Option Text}
    (inserted : insertMessage db conversationId sequence message status source = .ok db') :
    ∃ row : Message, row.id = message.id ∧ row.conversationId = conversationId ∧
      row.deletedAt = none ∧ db' = { db with messages := db.messages.upsert row } := by
  simp only [insertMessage, bind_eq_ok, require_eq_ok, pure_eq_ok] at inserted
  obtain ⟨-, -, -, -, rfl⟩ := inserted
  exact ⟨_, rfl, rfl, rfl, rfl⟩

theorem stageUserMessage_eq_ok {conversationId : Text} {sequence : Nat} {message : ChatMessage}
    {memoryMode : MemoryMode} {providerId : Option Text} {keywords : List Text}
    (staged : stageUserMessage db conversationId sequence message memoryMode providerId keywords =
      .ok db') :
    ∃ row answer : Message, ∃ o, row.id = message.id ∧ row.conversationId = conversationId ∧
      answer.id = answerId message.id ∧ answer.conversationId = conversationId ∧
      Carries o ⟨conversationId, sequence,
        .plain message.id .user message.text message.createdAt .model, memoryMode, keywords, false,
        providerId⟩ ∧
      db' = { db with
        messages := (db.messages.upsert row).upsert answer, outbox := db.outbox.upsert o } := by
  simp only [stageUserMessage, bind_eq_ok, pure_eq_ok] at staged
  obtain ⟨db₁, first, db₂, second, rfl⟩ := staged
  obtain ⟨row, id, here, -, rfl⟩ := insertMessage_eq_ok first
  obtain ⟨answer, id', here', -, rfl⟩ := insertMessage_eq_ok second
  refine ⟨row, answer, _, id, here, id', here', ?_, rfl⟩
  refine ⟨rfl, .inl rfl, ?_⟩
  cases memoryMode <;> rfl

theorem stageConfirmedObservation_eq_ok
    (staged : stageConfirmedObservation db conversationId sequence message = .ok db') :
    ∃ row : Message, ∃ o, row.id = message.id ∧ row.conversationId = conversationId ∧
      Carries o ⟨conversationId, sequence,
        .plain message.id .user message.text message.createdAt .model, .off, [], true, none⟩ ∧
      db' = { db with messages := db.messages.upsert row, outbox := db.outbox.upsert o } := by
  simp only [stageConfirmedObservation, bind_eq_ok, pure_eq_ok] at staged
  obtain ⟨db₁, inserted, rfl⟩ := staged
  obtain ⟨row, id, here, -, rfl⟩ := insertMessage_eq_ok inserted
  exact ⟨row, _, id, here, ⟨rfl, .inl rfl, rfl⟩, rfl⟩

theorem commitExchange_eq_ok (committed : commitExchange db user assistant = .ok db') :
    ∃ staged answer : Message, db.messages.find user.id = some staged ∧
      answer.id = answerId user.id ∧ answer.conversationId = staged.conversationId ∧
      answer.deletedAt = none ∧
      db' = { db with
        messages := (setStatus db.messages user.id "committed").upsert answer
        outbox := db.outbox.delete fun o => o.id = ingestId user.id } := by
  simp only [commitExchange, bind_eq_ok, require_eq_ok, orThrow_eq_ok] at committed
  obtain ⟨-, same, staged, found, db₁, inserted, rest⟩ := committed
  obtain ⟨answer, id, here, live, rfl⟩ := insertMessage_eq_ok inserted
  refine ⟨staged, answer, found, id.trans same, here, live, ?_⟩
  split at rest
  · simp only [bind_eq_ok, pure_eq_ok] at rest
    obtain ⟨-, -, rfl⟩ := rest
    rfl
  · rw [← Except.ok.inj rest]

theorem mirrors_ensureConversation (mirrors : Mirrors db awaited) (conversationId : Text) :
    Mirrors (ensureConversation db conversationId) awaited := by
  unfold ensureConversation
  split
  · exact mirrors
  · exact ⟨mirrors.carried, mirrors.only, mirrors.placed⟩

theorem mirrors_stageUserMessage (mirrors : Mirrors db awaited) {conversationId : Text}
    {sequence : Nat} {message : ChatMessage} {memoryMode : MemoryMode} {providerId : Option Text}
    {keywords : List Text}
    (confirms : ¬ Strands db message.id conversationId (confirmId message.id))
    (answers : ∀ operation, (operation = ingestId (answerId message.id) ∨
        operation = confirmId (answerId message.id)) →
      ¬ Strands db (answerId message.id) conversationId operation)
    (staged : stageUserMessage db conversationId sequence message memoryMode providerId keywords =
      .ok db') :
    Mirrors db' fun p => (HistoryEvent.stageUserMessage conversationId sequence message memoryMode
        providerId keywords).staged = some p ∨
      awaited p ∧ p.operationId ≠ ingestId message.id := by
  obtain ⟨row, answer, o, id, here, id', here', carries, rfl⟩ := stageUserMessage_eq_ok staged
  have apart : answerId message.id ≠ message.id := by
    intro same
    have lengths := congrArg List.length same
    simp [answerId, Text.ofString] at lengths
    omega
  refine (mirrors.stage carries rfl ?_).congr ?_
  · rintro p (rfl | ⟨waits, other⟩)
    · apply placed_upsert
      · exact placed_self id here
      · intro same
        rw [id'] at same
        exact absurd same apart
    · have other : p.operationId ≠ ingestId message.id := other
      apply placed_upsert
      · apply placed_upsert (mirrors.placed p waits)
        intro same
        rw [here]
        -- an operation of the same message can only be its confirmation
        have joined := operationId_joins.mpr (same.symm.trans id)
        apply mirrors.conversation_eq waits
        rw [← same, id, joined.resolve_left other]
        exact confirms
      · intro same
        rw [here']
        have joined := operationId_joins.mpr (same.symm.trans id')
        apply mirrors.conversation_eq waits
        rw [← same, id']
        exact answers _ joined
  · intro p
    simp only [HistoryEvent.staged, Option.some.injEq]
    rfl

theorem mirrors_stageConfirmedObservation (mirrors : Mirrors db awaited)
    (ingests : ¬ Strands db message.id conversationId (ingestId message.id))
    (staged : stageConfirmedObservation db conversationId sequence message = .ok db') :
    Mirrors db' fun p =>
      (HistoryEvent.stageConfirmedObservation conversationId sequence message).staged = some p ∨
        awaited p ∧ p.operationId ≠ confirmId message.id := by
  obtain ⟨row, o, id, here, carries, rfl⟩ := stageConfirmedObservation_eq_ok staged
  refine (mirrors.stage carries rfl ?_).congr ?_
  · rintro p (rfl | ⟨waits, other⟩)
    · exact placed_self id here
    · have other : p.operationId ≠ confirmId message.id := other
      apply placed_upsert (mirrors.placed p waits)
      intro same
      rw [here]
      have joined := operationId_joins.mpr (same.symm.trans id)
      apply mirrors.conversation_eq waits
      rw [← same, id, joined.resolve_right other]
      exact ingests
  · intro p
    simp only [HistoryEvent.staged, Option.some.injEq]
    rfl

theorem mirrors_commitExchange (mirrors : Mirrors db awaited) {user assistant : ChatMessage}
    (answers : ∀ m, db.messages.find user.id = some m → ∀ operation,
      (operation = ingestId (answerId user.id) ∨ operation = confirmId (answerId user.id)) →
      ¬ Strands db (answerId user.id) m.conversationId operation)
    (committed : commitExchange db user assistant = .ok db') :
    Mirrors db' fun p => awaited p ∧ ¬ p.operationId = ingestId user.id := by
  obtain ⟨staged, answer, found, id, here, -, rfl⟩ := commitExchange_eq_ok committed
  refine mirrors.drop rfl ?_ ?_
  · intro o p _ carries
    rw [decide_eq_true_iff, carries.id]
  · intro p waits
    apply placed_upsert
    · exact placed_setStatus (mirrors.placed p waits) user.id "committed"
    · intro same
      rw [here]
      have joined := operationId_joins.mpr (same.symm.trans id)
      apply mirrors.conversation_eq waits
      rw [← same, id]
      exact answers staged found _ joined

theorem mirrors_commitConfirmedObservation (mirrors : Mirrors db awaited) (message : ChatMessage) :
    Mirrors (commitConfirmedObservation db message)
      fun p => awaited p ∧ ¬ p.operationId = confirmId message.id := by
  refine mirrors.drop rfl ?_ ?_
  · intro o p _ carries
    rw [decide_eq_true_iff, carries.id]
  · intro p waits
    have committed := placed_setStatus (mirrors.placed p waits) message.id "committed"
    exact placed_setEligible committed message.id true

theorem mirrors_markMemoryPurged (mirrors : Mirrors db awaited) (id : Text) :
    Mirrors { db with messages := setEligible db.messages id false } awaited := by
  refine ⟨mirrors.carried, mirrors.only, ?_⟩
  intro p waits
  exact placed_setEligible (mirrors.placed p waits) id false

theorem mirrors_deleteConversationHistory (mirrors : Mirrors db awaited) (conversationId : Text)
    (now : Int) :
    Mirrors (deleteConversationHistory db conversationId now)
      fun p => awaited p ∧ ¬ p.conversationId = conversationId := by
  refine mirrors.drop rfl ?_ ?_
  · intro o p waits carries
    obtain ⟨m, found, here⟩ := Option.map_eq_some_iff.mp (mirrors.placed p waits)
    obtain ⟨there, same⟩ := (db.messages.find_eq_some_iff).mp found
    have named : ∀ id, (id ∈ ((db.messages.rows.filter fun m =>
        m.conversationId = conversationId).map Message.id)) ↔
        ∃ m, db.messages.find id = some m ∧ m.conversationId = conversationId := by
      intro id
      simp only [List.mem_map, List.mem_filter, decide_eq_true_eq, Table.find_eq_some_iff]
      constructor
      · rintro ⟨m, ⟨member, mine⟩, rfl⟩
        exact ⟨m, ⟨member, rfl⟩, mine⟩
      · rintro ⟨m, ⟨member, rfl⟩, mine⟩
        exact ⟨m, ⟨member, mine⟩, rfl⟩
    rw [decide_eq_true_iff, List.mem_map, List.mem_map, carries.id]
    constructor
    · rintro (⟨id, member, joined⟩ | ⟨id, member, joined⟩)
      · obtain ⟨m', found', mine⟩ := (named id).mp member
        rw [← operationId_joins.mp (.inl joined.symm), found, Option.some.injEq] at found'
        rw [← here, found', mine]
      · obtain ⟨m', found', mine⟩ := (named id).mp member
        rw [← operationId_joins.mp (.inr joined.symm), found, Option.some.injEq] at found'
        rw [← here, found', mine]
    · intro mine
      have member := (named p.message.id).mpr ⟨m, found, here.trans mine⟩
      rcases operationId_joins.mpr (rfl : p.message.id = p.message.id) with joined | joined
      · exact .inl ⟨_, member, joined.symm⟩
      · exact .inr ⟨_, member, joined.symm⟩
  · intro p waits
    exact placed_setDeleted (mirrors.placed p waits) conversationId now

theorem mirrors_of_wrote (mirrors : Mirrors db awaited) {rows : List SidecarRow}
    {cited lost : List Text} (wrote : Wrote db db' rows cited lost) : Mirrors db' awaited := by
  have carries {o : OutboxOperation} {p : PendingUserMessage} (carries : Carries o p) :
      Carries (ingested cited o) p := by
    unfold ingested
    split
    · exact carries.of_same rfl rfl rfl (.inr rfl)
    · exact carries
  have still : ∀ m : Message, (forgotten lost (recalled cited m)).conversationId =
      m.conversationId := by
    intro m
    unfold forgotten recalled
    split <;> split <;> rfl
  have messages : db'.messages = db.messages.update (fun m => forgotten lost (recalled cited m))
      (fun m => by rw [id_forgotten, id_recalled]) := Table.ext wrote.messages
  refine ⟨?_, ?_, ?_⟩
  · intro p waits
    obtain ⟨o, member, carried⟩ := mirrors.carried p waits
    refine ⟨ingested cited o, ?_, carries carried⟩
    rw [wrote.outbox]
    exact List.mem_map_of_mem member
  · intro o member
    rw [wrote.outbox] at member
    obtain ⟨o', member', rfl⟩ := List.mem_map.mp member
    obtain ⟨p, waits, carried⟩ := mirrors.only o' member'
    exact ⟨p, waits, carries carried⟩
  · intro p waits
    rw [messages]
    exact placed_update (mirrors.placed p waits) still

end

/-- The event commits no message that was deleted, and writes no row over one of another
conversation that still waits. -/
def Careful (db : Database) : HistoryEvent → Prop
  | .stageUserMessage conversationId _ message _ _ _ =>
    ¬ Strands db message.id conversationId (confirmId message.id) ∧
      ∀ operation, (operation = ingestId (answerId message.id) ∨
          operation = confirmId (answerId message.id)) →
        ¬ Strands db (answerId message.id) conversationId operation
  | .stageConfirmedObservation conversationId _ message =>
    ¬ Strands db message.id conversationId (ingestId message.id)
  | .commitExchange user _ =>
    ∀ m, db.messages.find user.id = some m → m.deletedAt = none ∧
      ∀ operation, (operation = ingestId (answerId user.id) ∨
          operation = confirmId (answerId user.id)) →
        ¬ Strands db (answerId user.id) m.conversationId operation
  | _ => True

section

variable {c : Crypto} {db db' : Database} {awaited : PendingUserMessage → Prop}

theorem replaceSidecarSuffix_wrote (chain : db.Chain c) {p : Nat} {digest : String}
    {records : List (List Char)} (replaced : replaceSidecarSuffix c db p digest records = .ok db') :
    db'.Chain c ∧ ∃ rows cited lost, Wrote db db' rows cited lost := by
  simp only [replaceSidecarSuffix, bind_eq_ok] at replaced
  obtain ⟨payloads, -, replaced⟩ := replaced
  obtain ⟨vs, -, -, -, wrote⟩ := (replaceRecords_eq_ok chain).mp replaced
  exact ⟨(replaced_of_replaceRecords chain replaced).2.chain, _, _, _, wrote⟩

variable {conversationId : Text} {e : HistoryEvent}

theorem historyStep_chain (chain : db.Chain c) (stepped : historyStep c db e = .ok db') :
    db'.Chain c := by
  cases e with
  | ensureConversation conversationId =>
    cases stepped
    unfold ensureConversation
    split
    · exact chain
    · exact chain
  | stageUserMessage conversationId sequence message memoryMode providerId keywords =>
    obtain ⟨row, answer, o, -, -, -, -, -, rfl⟩ := stageUserMessage_eq_ok stepped
    exact chain
  | stageConfirmedObservation conversationId sequence message =>
    obtain ⟨row, o, -, -, -, rfl⟩ := stageConfirmedObservation_eq_ok stepped
    exact chain
  | commitExchange user assistant =>
    obtain ⟨staged, answer, -, -, -, -, rfl⟩ := commitExchange_eq_ok stepped
    exact chain
  | commitConfirmedObservation conversationId message =>
    cases stepped
    exact chain
  | replaceSidecarSuffix commonPrefix commonPrefixSha256 records =>
    exact (replaceSidecarSuffix_wrote chain stepped).1
  | markMemoryPurged messageId =>
    cases stepped
    exact chain
  | deleteConversationHistory conversationId now =>
    cases stepped
    exact chain

theorem historyStep_mirrors (chain : db.Chain c) (mirrors : Mirrors db awaited)
    (careful : Careful db e) (stepped : historyStep c db e = .ok db') :
    Mirrors db' fun p => e.staged = some p ∨ awaited p ∧ ¬ e.Ends p := by
  -- an event that stages nothing only ends what it ends
  have staging {awaited' : PendingUserMessage → Prop} (mirrors' : Mirrors db' awaited')
      (quiet : e.staged = none) (same : ∀ p, awaited' p ↔ awaited p ∧ ¬ e.Ends p) :
      Mirrors db' fun p => e.staged = some p ∨ awaited p ∧ ¬ e.Ends p := by
    apply mirrors'.congr
    intro p
    rw [same, quiet]
    simp
  cases e with
  | ensureConversation conversationId =>
    cases stepped
    exact staging (mirrors_ensureConversation mirrors conversationId) rfl
      fun p => ⟨fun waits => ⟨waits, id⟩, And.left⟩
  | stageUserMessage conversationId sequence message memoryMode providerId keywords =>
    exact mirrors_stageUserMessage mirrors careful.1 careful.2 stepped
  | stageConfirmedObservation conversationId sequence message =>
    exact mirrors_stageConfirmedObservation mirrors careful stepped
  | commitExchange user assistant =>
    exact staging
      (mirrors_commitExchange mirrors (fun m found => (careful m found).2) stepped) rfl
      fun p => Iff.rfl
  | commitConfirmedObservation conversationId message =>
    cases stepped
    exact staging (mirrors_commitConfirmedObservation mirrors message) rfl fun p => Iff.rfl
  | replaceSidecarSuffix commonPrefix commonPrefixSha256 records =>
    obtain ⟨-, rows, cited, lost, wrote⟩ := replaceSidecarSuffix_wrote chain stepped
    exact staging (mirrors_of_wrote mirrors wrote) rfl
      fun p => ⟨fun waits => ⟨waits, id⟩, And.left⟩
  | markMemoryPurged messageId =>
    cases stepped
    exact staging (mirrors_markMemoryPurged mirrors messageId) rfl
      fun p => ⟨fun waits => ⟨waits, id⟩, And.left⟩
  | deleteConversationHistory conversationId now =>
    cases stepped
    exact staging (mirrors_deleteConversationHistory mirrors conversationId now) rfl
      fun p => Iff.rfl

def Cleared (conversationId : Text) (messages : Table Message.id) : Prop :=
  ∀ m ∈ messages.rows, m.conversationId = conversationId → m.deletedAt ≠ none

def HistoryEvent.Stages (conversationId : Text) (e : HistoryEvent) : Prop :=
  ∃ p, e.staged = some p ∧ p.conversationId = conversationId

theorem loadMessages_of_cleared (cleared : Cleared conversationId db.messages) :
    loadMessages db conversationId = [] := by
  have none : (db.messages.rows.filter fun m =>
      m.conversationId = conversationId ∧ m.deletedAt = none) = [] := by
    rw [List.filter_eq_nil_iff]
    intro m member holds
    obtain ⟨here, live⟩ := of_decide_eq_true holds
    exact cleared m member here live
  rw [loadMessages, none]
  rfl

theorem mem_loadMessages {m : Message} :
    m ∈ loadMessages db conversationId ↔
      m ∈ db.messages.rows ∧ m.conversationId = conversationId ∧ m.deletedAt = none := by
  rw [loadMessages, (List.perm_insertionSort _ _).mem_iff, List.mem_filter, decide_eq_true_iff]

theorem Cleared.upsert {messages : Table Message.id} (cleared : Cleared conversationId messages)
    {row : Message} (apart : row.conversationId ≠ conversationId) :
    Cleared conversationId (messages.upsert row) := by
  intro m member here
  rcases (messages.mem_upsert).mp member with rfl | ⟨member, -⟩
  · exact absurd here apart
  · exact cleared m member here

theorem Cleared.update {messages : Table Message.id} (cleared : Cleared conversationId messages)
    {f : Message → Message} {keeps : ∀ m, (f m).id = m.id}
    (still : ∀ m, (f m).conversationId = m.conversationId)
    (marked : ∀ m, (f m).deletedAt = none → m.deletedAt = none) :
    Cleared conversationId (messages.update f keeps) := by
  intro m member here live
  obtain ⟨m', member', rfl⟩ := (messages.mem_update).mp member
  exact cleared m' member' ((still m').symm.trans here) (marked m' live)

theorem Cleared.setStatus {messages : Table Message.id} (cleared : Cleared conversationId messages)
    (id : Text) (status : String) : Cleared conversationId (setStatus messages id status) := by
  apply cleared.update
  · intro m
    split <;> rfl
  · intro m
    split <;> exact fun live => live

theorem Cleared.setEligible {messages : Table Message.id}
    (cleared : Cleared conversationId messages) (id : Text) (eligible : Bool) :
    Cleared conversationId (setEligible messages id eligible) := by
  apply cleared.update
  · intro m
    split <;> rfl
  · intro m
    split <;> exact fun live => live

theorem Cleared.setDeleted {messages : Table Message.id} (cleared : Cleared conversationId messages)
    (other : Text) (now : Int) : Cleared conversationId (setDeleted messages other now) := by
  apply cleared.update
  · intro m
    split <;> rfl
  · intro m
    split
    · exact nofun
    · exact fun live => live

theorem cleared_setDeleted (messages : Table Message.id) (conversationId : Text) (now : Int) :
    Cleared conversationId (setDeleted messages conversationId now) := by
  intro m member here
  obtain ⟨m', -, rfl⟩ := (messages.mem_update).mp member
  split at here
  · rename_i mine
    rw [if_pos mine]
    exact Option.some_ne_none now
  · rename_i other
    exact absurd here other

theorem Cleared.of_wrote (cleared : Cleared conversationId db.messages) {rows : List SidecarRow}
    {cited lost : List Text} (wrote : Wrote db db' rows cited lost) :
    Cleared conversationId db'.messages := by
  intro m member here live
  rw [wrote.messages] at member
  obtain ⟨m', member', rfl⟩ := List.mem_map.mp member
  have same : (forgotten lost (recalled cited m')).conversationId = m'.conversationId ∧
      (forgotten lost (recalled cited m')).deletedAt = m'.deletedAt := by
    unfold forgotten recalled
    split <;> split <;> exact ⟨rfl, rfl⟩
  exact cleared m' member' (same.1.symm.trans here) (same.2.symm.trans live)

theorem historyStep_cleared (chain : db.Chain c) (cleared : Cleared conversationId db.messages)
    (careful : Careful db e) (elsewhere : ¬ e.Stages conversationId)
    (stepped : historyStep c db e = .ok db') : Cleared conversationId db'.messages := by
  cases e with
  | ensureConversation other =>
    cases stepped
    unfold ensureConversation
    split
    · exact cleared
    · exact cleared
  | stageUserMessage other sequence message memoryMode providerId keywords =>
    obtain ⟨row, answer, o, -, here, -, here', -, rfl⟩ := stageUserMessage_eq_ok stepped
    have apart : other ≠ conversationId := fun same => elsewhere ⟨_, rfl, same⟩
    exact (cleared.upsert (here ▸ apart)).upsert (here' ▸ apart)
  | stageConfirmedObservation other sequence message =>
    obtain ⟨row, o, -, here, -, rfl⟩ := stageConfirmedObservation_eq_ok stepped
    have apart : other ≠ conversationId := fun same => elsewhere ⟨_, rfl, same⟩
    exact cleared.upsert (here ▸ apart)
  | commitExchange user assistant =>
    obtain ⟨staged, answer, found, -, here, -, rfl⟩ := commitExchange_eq_ok stepped
    apply (cleared.setStatus user.id "committed").upsert
    rw [here]
    intro mine
    have member := ((db.messages.find_eq_some_iff).mp found).1
    exact cleared staged member mine (careful staged found).1
  | commitConfirmedObservation other message =>
    cases stepped
    exact (cleared.setStatus message.id "committed").setEligible message.id true
  | replaceSidecarSuffix commonPrefix commonPrefixSha256 records =>
    obtain ⟨-, rows, cited, lost, wrote⟩ := replaceSidecarSuffix_wrote chain stepped
    exact cleared.of_wrote wrote
  | markMemoryPurged messageId =>
    cases stepped
    exact cleared.setEligible messageId false
  | deleteConversationHistory other now =>
    cases stepped
    exact cleared.setDeleted other now

theorem historyStep_of_step {report : Unit}
    (stepped : (historyMachine c).step db e = some (db', report)) :
    historyStep c db e = .ok db' := by
  obtain ⟨next, made, same⟩ := Option.map_eq_some_iff.mp stepped
  cases same
  revert made
  cases historyStep c db e with
  | error refusal => exact nofun
  | ok result =>
    intro made
    exact congrArg Except.ok (Option.some.inj made)

variable {reports : List Unit}

theorem run_mirrors {past events : List HistoryEvent} (chain : db.Chain c)
    (mirrors : Mirrors db (Awaits past)) (careful : (historyMachine c).Along Careful db events)
    (ran : (historyMachine c).run db events = some (db', reports)) :
    db'.Chain c ∧ Mirrors db' (Awaits (past ++ events)) := by
  induction events generalizing db past reports with
  | nil =>
    cases ran
    rw [List.append_nil]
    exact ⟨chain, mirrors⟩
  | cons e events ih =>
    obtain ⟨next, report, rest, stepped, onward, rfl⟩ := (historyMachine c).run_cons_eq_some.mp ran
    have moved := historyStep_of_step stepped
    have waits : Mirrors next (Awaits (past ++ [e])) :=
      (historyStep_mirrors chain mirrors careful.1 moved).congr fun p => awaits_concat
    have last := ih (historyStep_chain chain moved) waits (careful.2 next report stepped) onward
    rwa [List.append_assoc, List.singleton_append] at last

theorem run_cleared {events : List HistoryEvent} (chain : db.Chain c)
    (cleared : Cleared conversationId db.messages)
    (careful : (historyMachine c).Along Careful db events)
    (elsewhere : ∀ e ∈ events, ¬ e.Stages conversationId)
    (ran : (historyMachine c).run db events = some (db', reports)) :
    Cleared conversationId db'.messages := by
  induction events generalizing db reports with
  | nil =>
    cases ran
    exact cleared
  | cons e events ih =>
    obtain ⟨next, report, rest, stepped, onward, rfl⟩ := (historyMachine c).run_cons_eq_some.mp ran
    obtain ⟨apart, elsewhere⟩ := List.forall_mem_cons.mp elsewhere
    have moved := historyStep_of_step stepped
    exact ih (historyStep_chain chain moved)
      (historyStep_cleared chain cleared careful.1 apart moved) (careful.2 next report stepped)
      elsewhere onward

end

theorem chain_empty (c : Crypto) : Database.empty.Chain c := trivial

theorem mirrors_empty : Mirrors .empty (Awaits []) := by
  have none : ∀ p, ¬ Awaits [] p := by
    rintro p ⟨before, e, after, split, -⟩
    exact List.append_ne_nil_of_right_ne_nil before (List.cons_ne_nil e after) split.symm
  exact ⟨fun p waits => absurd waits (none p), nofun, fun p waits => absurd waits (none p)⟩

theorem not_awaits_of_deleted {before after : List HistoryEvent} {conversationId : Text} {now : Int}
    (elsewhere : ∀ e ∈ after, ¬ e.Stages conversationId)
    (waits : Awaits (before ++ .deleteConversationHistory conversationId now :: after) p) :
    p.conversationId ≠ conversationId := by
  induction after using List.reverseRecOn with
  | nil =>
    rcases awaits_concat.mp waits with staged | ⟨-, kept⟩
    · cases staged
    · exact kept
  | append_singleton after e ih =>
    rw [← List.cons_append, ← List.append_assoc] at waits
    rcases awaits_concat.mp waits with staged | ⟨waits, -⟩
    · intro here
      exact elsewhere e (by simp) ⟨p, staged, here⟩
    · exact ih (fun x member => elsewhere x (List.mem_append_left _ member)) waits

/-- In every run whose commits are of messages that are not deleted, and that writes no row over
one of another conversation whose operation waits: `pendingUserMessages` returns the messages that
were staged and not committed, replaced or deleted since, each once; and after the deletion of a
conversation nothing of it is loaded or pending, unless a message is staged there. Whatever the
run, a commit leaves its answer among the messages of the conversation. -/
theorem messages_live_until_commit (c : Crypto) {events : List HistoryEvent} {db : Database}
    {reports : List Unit} (ran : (historyMachine c).run .empty events = some (db, reports))
    (careful : (historyMachine c).Along Careful .empty events) :
    (∀ conversationId, ∃ found, pendingUserMessages db conversationId = .ok found ∧
      found.Nodup ∧ ∀ p, p ∈ found ↔ p.conversationId = conversationId ∧ Awaits events p) ∧
    (∀ before after conversationId now,
      events = before ++ .deleteConversationHistory conversationId now :: after →
      (∀ e ∈ after, ¬ e.Stages conversationId) →
      loadMessages db conversationId = [] ∧ pendingUserMessages db conversationId = .ok []) ∧
    (∀ user assistant staged db', db.messages.find user.id = some staged →
      commitExchange db user assistant = .ok db' →
      ∃ answer ∈ loadMessages db' staged.conversationId, answer.id = answerId user.id) := by
  have mirrors := (run_mirrors (chain_empty c) mirrors_empty careful ran).2
  rw [List.nil_append] at mirrors
  refine ⟨mirrors.pendingUserMessages, ?_, ?_⟩
  · rintro before after conversationId now rfl elsewhere
    constructor
    · apply loadMessages_of_cleared
      obtain ⟨middle, first, second, ran₁, ran₂, -⟩ := (historyMachine c).run_append_eq_some.mp ran
      obtain ⟨careful₁, careful₂⟩ := Machine.along_append careful ran₁
      have chain := (run_mirrors (chain_empty c) mirrors_empty careful₁ ran₁).1
      obtain ⟨next, report, rest, stepped, onward, -⟩ :=
        (historyMachine c).run_cons_eq_some.mp ran₂
      have moved := historyStep_of_step stepped
      apply run_cleared (historyStep_chain chain moved) _ (careful₂.2 next report stepped)
        elsewhere onward
      cases moved
      exact cleared_setDeleted middle.messages conversationId now
    · obtain ⟨found, read, -, waiting⟩ := mirrors.pendingUserMessages conversationId
      rw [read]
      apply congrArg
      apply List.eq_nil_iff_forall_not_mem.mpr
      intro p member
      obtain ⟨here, waits⟩ := (waiting p).mp member
      exact not_awaits_of_deleted elsewhere waits here
  · intro user assistant staged db' found committed
    obtain ⟨staged', answer, found', id, here, live, rfl⟩ := commitExchange_eq_ok committed
    obtain rfl := Option.some.inj (found.symm.trans found')
    refine ⟨answer, mem_loadMessages.mpr ⟨?_, here, live⟩, id⟩
    exact (Table.mem_upsert _).mpr (.inl rfl)

private def home : Text := .ofString "home"

private def asked : ChatMessage := .plain (.ofString "message_1") .user (.ofString "hi") 0 .model

private def answered : ChatMessage :=
  .plain (answerId asked.id) .assistant (.ofString "hello") 0 .model

theorem messages_live_until_commit_asked : let events : List HistoryEvent :=
      [.ensureConversation home, .stageUserMessage home 0 asked .keywords none []]
    ∃ db reports found, (historyMachine stdCrypto).run .empty events = some (db, reports) ∧
      pendingUserMessages db home = .ok found ∧ found.Nodup ∧
      ∀ p, p ∈ found ↔ p.conversationId = home ∧ Awaits events p := by
  intro events
  have careful : (historyMachine stdCrypto).Along Careful .empty events := by
    refine ⟨trivial, fun next report stepped => ⟨?_, fun _ _ _ => trivial⟩⟩
    cases stepped
    refine ⟨?_, ?_⟩
    · rintro ⟨⟨m, found, -⟩, -⟩
      cases found
    · rintro operation - ⟨⟨m, found, -⟩, -⟩
      cases found
  obtain ⟨found, read, nodup, waiting⟩ :=
    (messages_live_until_commit stdCrypto rfl careful).1 home
  exact ⟨_, _, found, rfl, read, nodup, waiting⟩

/-- An answer in flight when its conversation is deleted comes back with its commit. -/
theorem commit_revives_deleted : ∃ db reports, (historyMachine stdCrypto).run .empty
      [.ensureConversation home, .stageUserMessage home 0 asked .keywords none [],
        .deleteConversationHistory home 1, .commitExchange asked answered] = some (db, reports) ∧
    (loadMessages db home).map Message.id = [answered.id] := by
  refine ⟨_, _, rfl, by decide⟩

end ProofRay.Host
