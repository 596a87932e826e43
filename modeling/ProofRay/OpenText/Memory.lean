/- The open-text memory: one session over a durable sidecar, and the calls that publish, replace and
   remove documents. -/

import ProofRay.Lib.Machine
import ProofRay.OpenText.Documents

namespace ProofRay.OpenText

open Engine (Bytes Crypto ascii)
open Lib (Dict Machine)
open Lib.Guard
open Sidecar

/-- The arguments of `OpenTextHorizonMemory` that passed its checks. -/
structure Session where
  scopeId : Nat
  sessionId : String
  purpose : String
  checked : sessionId ≠ "" ∧ purpose ≠ ""
  deriving DecidableEq

namespace Session

variable (c : Crypto) (s : Session)

/-- `OPEN_TEXT_SCHEMA_SHA256`. -/
def schemaSha256 : String :=
  hexSha256 c (ascii "horizon.open-text.surface-document.v1: exact source span only")

def scope : String := toString s.scopeId

theorem scope_ne_empty : s.scope ≠ "" := by
  intro empty
  have digits : (toString s.scopeId).toList = Nat.toDigits 10 s.scopeId := by
    simp [toString, Nat.repr]
  have some_digit : Nat.toDigits 10 s.scopeId ≠ [] := Nat.toDigits_ne_nil
  rw [show toString s.scopeId = "" from empty] at digits
  exact some_digit digits.symm

/-- `self.authority`. -/
def authority : SidecarAuthority where
  adapterId := "open-text-span-v1"
  ruleId := "lossless-surface-document"
  ruleVersion := 1
  schemaSha256 := schemaSha256 c
  allowedScopes := [s.scope]
  allowedPredicates := ["surface_document"]
  purpose := s.purpose
  closedWorldPredicates := []
  checked := by
    have predicates : ["surface_document"] ≠ [] ∧ Canonical ["surface_document"] ∧
        "" ∉ ["surface_document"] := by decide
    refine ⟨⟨?_, ?_, Nat.le_refl 1, s.checked.2⟩, isSha256_hexSha256 c _,
      ⟨List.cons_ne_nil _ _, List.pairwise_singleton _ _, ?_⟩, predicates, ⟨.nil, nofun⟩⟩
    · show "open-text-span-v1" ≠ ""
      decide
    · show "lossless-surface-document" ≠ ""
      decide
    · rw [List.mem_singleton]
      exact s.scope_ne_empty.symm

def registry : Registry := ⟨s.scope, [s.authority c]⟩

end Session

/-- `OpenTextHorizonMemory`, beside the record store of its sidecar. -/
structure OpenTextMemory where
  session : Session
  host : Host
  documents : List RouteDocument
  contextIntents : List AnswerContextIntent

namespace OpenTextMemory

variable (c : Crypto)

/-- `OpenTextHorizonMemory.__init__` over what a record store holds. -/
def openStore (session : Session) (store : List Bytes) : Except OpenTextError OpenTextMemory := do
  let durable ←
    (DurableAuthorizedSidecarMemory.openStore c (session.registry c) store).mapError .raised
  let (documents, contextIntents) ←
    stateFromSidecar session.scopeId session.sessionId durable.memory.attestedFacts
  return ⟨session, ⟨durable, store⟩, documents, contextIntents⟩

variable (m : OpenTextMemory)

def known (factId : Nat) : Option RouteDocument := m.documents.find? fun d => d.factId = factId

def knownIds : List Nat := m.documents.map fun d => d.factId

def knownIntent (intentId : String) : Option AnswerContextIntent :=
  m.contextIntents.find? fun i => i.intentId = intentId

def verified (host : Host) (documents : List RouteDocument) : Prop :=
  ∀ d ∈ documents, host.durable.memory.verifyAttestation c d.factId = true

instance (host : Host) (documents : List RouteDocument) : Decidable (verified c host documents) :=
  inferInstanceAs (Decidable (∀ _ ∈ documents, _))

/-- The checks of `ingest_documents`, in their order. -/
def checkIngest (documents : List RouteDocument) (intents : List AnswerContextIntent) :
    Except OpenTextError Unit := do
  let ids := documents.map fun d => d.factId
  require (documents ≠ [] ∧ Canonical ids)
    (valueError "open-text documents must be non-empty and FactId-canonical")
  require (∀ d ∈ documents, d.scopeId = m.session.scopeId)
    (valueError "open-text document scope differs from memory")
  require ((∃ id ∈ ids, id ∈ m.knownIds) → ∀ d ∈ documents, m.known d.factId = some d)
    (valueError "open-text FactId collision is not an update")
  require (∀ i ∈ intents, ∀ id ∈ i.factIds, id ∈ ids)
    (valueError "open-text intent references an unknown document")
  require (∀ i ∈ intents, OneSession documents i.factIds i.sessionId)
    (valueError "open-text intent session differs from its documents")
  require (intents.map fun i => i.intentId).Nodup
    (valueError "open-text intent IDs must be unique per bundle")
  require (∀ i ∈ intents, ∀ prior ∈ m.knownIntent i.intentId, prior = i)
    (valueError "open-text intent identity cannot be rebound")

def observeAll (known : List AnswerContextIntent) :
    Nat → List AnswerContextIntent → List SidecarObservedIntent
  | _, [] => []
  | next, i :: rest =>
    match known.findIdx? fun k => k.intentId = i.intentId with
    | some order => observe order i :: observeAll known next rest
    | none => observe next i :: observeAll known (next + 1) rest

/-- `merged`: the snapshot with documents put in, by FactId. -/
def mergeDocuments (old new : List RouteDocument) : List RouteDocument :=
  let merged : Dict Nat RouteDocument := Dict.empty.update (old.map fun d => (d.factId, d))
  ((merged.update (new.map fun d => (d.factId, d))).sortedBy id).map Prod.snd

def putIntent (s : List String × Dict String AnswerContextIntent) (i : AnswerContextIntent) :
    List String × Dict String AnswerContextIntent :=
  (if i.intentId ∈ s.2.keys then s.1 else s.1 ++ [i.intentId], s.2.set i.intentId i)

def mergeIntents (known intents : List AnswerContextIntent) : List AnswerContextIntent :=
  let start : List String × Dict String AnswerContextIntent :=
    (known.map fun i => i.intentId, Dict.empty.update (known.map fun i => (i.intentId, i)))
  let (order, byIntent) := intents.foldl putIntent start
  order.filterMap byIntent.get

/-- `ingest_documents`. -/
def ingestDocuments (failure : Option String) (documents : List RouteDocument)
    (intents : List AnswerContextIntent) (bundleId : Option String) :
    Except OpenTextError SidecarIngestReceipt × OpenTextMemory :=
  let authority := m.session.authority c
  let planned := do
    m.checkIngest documents intents
    let observed := observeAll m.contextIntents m.contextIntents.length intents
    let bundle := bundleId.getD ("open-text:" ++ hexSha256 c (encode (contentOf documents)))
    (batchOf bundle m.session.scope authority.purpose "open-text-host-ingest" observed
      documents).mapError .raised
  match planned with
  | .error e => (.error e, m)
  | .ok batch =>
    match m.host.ingest c failure (declarativeAdapter c authority) batch with
    | (.error e, host) => (.error (.raised e), { m with host })
    | (.ok receipt, host) =>
      if ¬ (receipt.state = .applied ∨ receipt.state = .idempotent) then
        (.ok receipt, { m with host })
      else if ¬ verified c host documents then
        (.error (.runtimeError "open-text sidecar publication failed post-commit verification"),
          { m with host })
      else
        (.ok receipt, { m with
          host
          documents := mergeDocuments m.documents documents
          contextIntents :=
            if intents = [] then m.contextIntents else mergeIntents m.contextIntents intents })

def reread {ρ : Type} (host : Host) (receipt : ρ) : Except OpenTextError ρ × OpenTextMemory :=
  match stateFromSidecar m.session.scopeId m.session.sessionId
    host.durable.memory.attestedFacts with
  | .error e => (.error e, { m with host })
  | .ok (documents, contextIntents) => (.ok receipt, { m with host, documents, contextIntents })

/-- What `update_document` and `upsert_documents` share: documents replace FactIds. -/
def replaceFacts (failure : Option String) (reference bundleId failed : String)
    (documents : List RouteDocument) (remove : List Nat) :
    Except OpenTextError SidecarIngestReceipt × OpenTextMemory :=
  let authority := m.session.authority c
  match batchOf bundleId m.session.scope authority.purpose reference [] documents with
  | .error e => (.error (.raised e), m)
  | .ok batch =>
    match m.host.replaceFactIds c failure (declarativeAdapter c authority) batch remove with
    | (.error e, host) => (.error (.raised e), { m with host })
    | (.ok receipt, host) =>
      if receipt.state ≠ .applied then (.ok receipt, { m with host })
      else if ¬ verified c host documents then (.error (.runtimeError failed), { m with host })
      else m.reread host receipt

/-- What `purge_sources` and `purge_batch_source_prefix` share: FactIds go. -/
def purgeFacts (failure : Option String) (factIds : List Nat) (identity notFound : String) :
    Except OpenTextError CausalDeleteReceipt × OpenTextMemory :=
  if factIds = [] then
    let head := ledgerHead m.host.durable.records
    (.ok ⟨.rejectedNotFound, identity, [], head, head, notFound⟩, m)
  else
    match m.host.purgeFactIds c failure factIds identity with
    | (.error e, host) => (.error (.raised e), { m with host })
    | (.ok receipt, host) =>
      if receipt.state ≠ .purged then (.ok receipt, { m with host })
      else m.reread host receipt

def idsOfSources (sourceIds : List String) : List Nat :=
  ((m.documents.filter fun d => d.source ∈ sourceIds).map fun d => d.factId).insertionSort (· ≤ ·)

/-- `purge_sources`. -/
def purgeSources (failure : Option String) (sourceIds : List String) :
    Except OpenTextError CausalDeleteReceipt × OpenTextMemory :=
  if ¬ (sourceIds ≠ [] ∧ Canonical sourceIds ∧ "" ∉ sourceIds) then
    (.error (valueError "open-text purge requires canonical source identities"), m)
  else
    let factIds := m.idsOfSources sourceIds
    let first := sourceIds.headD ""
    let identity :=
      if factIds = [] ∨ sourceIds.length = 1 then first
      else "source-set:" ++ hexSha256 c (encode ("\x00".intercalate sourceIds))
    m.purgeFacts c failure factIds identity "route source is absent from open-text memory"

def idsOfBatches (start : String) : List Nat :=
  ((m.host.durable.memory.attestedFacts.filter fun item =>
    start.toList.isPrefixOf item.fact.sourceId.toList).map fun item =>
      item.fact.factId).insertionSort (· ≤ ·)

/-- `purge_batch_source_prefix`. -/
def purgeBatchSourcePrefix (failure : Option String) (start : String) :
    Except OpenTextError CausalDeleteReceipt × OpenTextMemory :=
  if start = "" then (.error (valueError "open-text batch prefix is required"), m)
  else m.purgeFacts c failure (m.idsOfBatches start) start
    "batch source prefix is absent from open-text memory"

def MayReplace (previous replacement : RouteDocument) : Prop :=
  replacement.sessionId = previous.sessionId ∧ previous.version < replacement.version ∧
    replacement.sequence = previous.sequence ∧ replacement.role = previous.role ∧
    replacement.speaker = previous.speaker

instance (previous replacement : RouteDocument) : Decidable (MayReplace previous replacement) :=
  inferInstanceAs (Decidable (_ ∧ _))

def alreadyActive (documents : List RouteDocument) (reason : String) : SidecarIngestReceipt :=
  let authority := m.session.authority c
  ⟨.idempotent, authority.adapterId, authority.sha256 c, documents.map fun d => d.factId,
    hexSha256 c (encode (contentOf documents)), reason⟩

def UpdateFits (replacement : RouteDocument) : Prop :=
  ∃ previous, m.documents.filter (fun d => d.factId = replacement.factId) = [previous] ∧
    replacement ≠ previous ∧ replacement.scopeId = m.session.scopeId ∧
    replacement.source = previous.source ∧ MayReplace previous replacement

/-- `update_document`. -/
def updateDocument (failure : Option String) (replacement : RouteDocument) :
    Except OpenTextError SidecarIngestReceipt × OpenTextMemory :=
  match m.documents.filter fun d => d.factId = replacement.factId with
  | [previous] =>
    if replacement = previous then
      (.ok (m.alreadyActive c [replacement] "replacement is already the active version"), m)
    else if ¬ (replacement.scopeId = m.session.scopeId ∧ replacement.source = previous.source ∧
        MayReplace previous replacement) then
      (.error (valueError
        "open-text update may change only content, version and event metadata"), m)
    else
      let bundle := "open-text-update:" ++ hexSha256 c (encode
        (replacement.source ++ "\x00" ++ toString replacement.version ++ "\x00" ++
          replacement.text))
      m.replaceFacts c failure "open-text-host-update" bundle
        "open-text update failed post-commit verification" [replacement] [previous.factId]
  | _ => (.error (valueError "open-text update requires one existing FactId"), m)

def checkRow (replacement : RouteDocument) : Except OpenTextError Unit :=
  match m.known replacement.factId with
  | none => .ok ()
  | some previous =>
    if previous = replacement then .ok ()
    else do
      require (replacement.source = previous.source)
        (valueError "open-text upsert source identity was rebound")
      require (MayReplace previous replacement)
        (valueError "open-text upsert may change only content, version and event metadata")

/-- `upsert_documents`. -/
def upsertDocuments (failure : Option String) (documents : List RouteDocument)
    (bundleId : Option String) : Except OpenTextError SidecarIngestReceipt × OpenTextMemory :=
  let ids := documents.map fun d => d.factId
  let existing := ids.filter fun id => id ∈ m.knownIds
  if ¬ (documents ≠ [] ∧ Canonical ids) then
    (.error (valueError "open-text upsert documents must be FactId-canonical"), m)
  else if ¬ ∀ d ∈ documents, d.scopeId = m.session.scopeId then
    (.error (valueError "open-text upsert document scope differs from memory"), m)
  else if existing = [] then m.ingestDocuments c failure documents [] bundleId
  else if ∃ i ∈ m.contextIntents, ∃ id ∈ i.factIds, id ∈ existing then
    (.error (valueError "open-text upsert cannot replace an observed-intent fact"), m)
  else if ∀ d ∈ documents, m.known d.factId = some d then
    (.ok (m.alreadyActive c documents "upsert batch is already active"), m)
  else
    match documents.forM m.checkRow with
    | .error e => (.error e, m)
    | .ok _ =>
      let row (d : RouteDocument) : String :=
        toString d.factId ++ ":" ++ d.source ++ ":" ++ toString d.version ++ ":" ++ d.text
      let bundle := bundleId.getD ("open-text-upsert:" ++
        hexSha256 c (encode ("\x00".intercalate (documents.map row))))
      m.replaceFacts c failure "open-text-host-upsert" bundle
        "open-text upsert failed post-commit verification" documents existing

end OpenTextMemory

/-- A call of an open-text memory, under a store that may fail its commit. -/
inductive Call where
  | ingestDocuments (failure : Option String) (documents : List RouteDocument)
      (intents : List AnswerContextIntent) (bundleId : Option String)
  | upsertDocuments (failure : Option String) (documents : List RouteDocument)
      (bundleId : Option String)
  | updateDocument (failure : Option String) (replacement : RouteDocument)
  | purgeSources (failure : Option String) (sourceIds : List String)
  | purgeBatchSourcePrefix (failure : Option String) (start : String)

/-- What a call answers or raises. -/
inductive Report where
  | ingested (outcome : Except OpenTextError SidecarIngestReceipt)
  | purged (outcome : Except OpenTextError CausalDeleteReceipt)

def Report.Returned : Report → Prop
  | .ingested outcome => ∃ receipt, outcome = .ok receipt
  | .purged outcome => ∃ receipt, outcome = .ok receipt

def OpenTextMemory.call (c : Crypto) (m : OpenTextMemory) : Call → OpenTextMemory × Report
  | .ingestDocuments failure documents intents bundleId =>
    let (outcome, next) := m.ingestDocuments c failure documents intents bundleId
    (next, .ingested outcome)
  | .upsertDocuments failure documents bundleId =>
    let (outcome, next) := m.upsertDocuments c failure documents bundleId
    (next, .ingested outcome)
  | .updateDocument failure replacement =>
    let (outcome, next) := m.updateDocument c failure replacement
    (next, .ingested outcome)
  | .purgeSources failure sourceIds =>
    let (outcome, next) := m.purgeSources c failure sourceIds
    (next, .purged outcome)
  | .purgeBatchSourcePrefix failure start =>
    let (outcome, next) := m.purgeBatchSourcePrefix c failure start
    (next, .purged outcome)

def openTextMachine (c : Crypto) : Machine OpenTextMemory Call Report where
  step m call := some (m.call c call)

end ProofRay.OpenText
