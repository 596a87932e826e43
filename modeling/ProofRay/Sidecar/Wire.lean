/- The records of a sidecar ledger and their bytes: JSON objects with their keys in order, read back
   through the checks of each constructor. -/

import ProofRay.Sidecar.Memory

namespace ProofRay.Sidecar

open Engine (Bytes Crypto PyError)
open Lib (Dict Json)
open Lib.Guard
open Option (bind_some)

def asFields : Json → Option (List (String × Json))
  | .obj fields => some fields
  | _ => none

def asStr : Json → Option String
  | .str s => some s
  | _ => none

def asInt : Json → Option Int
  | .int i => some i
  | _ => none

def asNat : Json → Option Nat
  | .int (.ofNat n) => some n
  | _ => none

def asBool : Json → Option Bool
  | .bool b => some b
  | _ => none

def asList {α : Type} (read : Json → Option α) : Json → Option (List α)
  | .arr items => items.mapM read
  | _ => none

def asSpan : Json → Option (Nat × Nat)
  | .arr [start, stop] => do return (← asNat start, ← asNat stop)
  | _ => none

def asOptional {α : Type} (read : Json → Option α) : Json → Option (Option α)
  | .null => some none
  | v => (read v).map some

def asRole (v : Json) : Option Role := do
  let name ← asStr v
  [Role.user, .assistant, .system, .tool].find? fun r => r.text = name

/-- `data[key]`. -/
def need {α : Type} (fields : List (String × Json)) (key : String) (read : Json → Option α) :
    Option α :=
  (Dict.lookupEntry key fields).bind read

def want {α : Type} (fields : List (String × Json)) (key : String) (default : α)
    (read : Json → Option α) : Option α :=
  match Dict.lookupEntry key fields with
  | none => some default
  | some v => read v

def knows (fields : List (String × Json)) (keys : List String) : Option Unit :=
  if ∀ p ∈ fields, p.1 ∈ keys then some () else none

@[simp] theorem asNat_int (n : Nat) : asNat (.int n) = some n := rfl

theorem asOptional_optional {α : Type} {write : α → Json} {read : Json → Option α}
    (o : Option α) (back : ∀ a, read (write a) = some a) (present : ∀ a, write a ≠ .null) :
    asOptional read (optional write o) = some o := by
  cases o with
  | none => rfl
  | some a =>
    have reads := back a
    cases text : write a with
    | null => exact absurd text (present a)
    | _ =>
      rw [text] at reads
      simp [optional, text, asOptional, reads]

@[simp] theorem asOptional_nat (o : Option Nat) :
    asOptional asNat (optional (fun n : Nat => .int n) o) = some o :=
  asOptional_optional o (fun n => asNat_int n) nofun

@[simp] theorem asOptional_str (o : Option String) : asOptional asStr (optional .str o) = some o :=
  asOptional_optional o (fun _ => rfl) nofun

@[simp] theorem asOptional_span (o : Option (Nat × Nat)) :
    asOptional asSpan (optional (fun s : Nat × Nat => .arr [.int s.1, .int s.2]) o) = some o :=
  asOptional_optional o (fun _ => rfl) nofun

@[simp] theorem asOptional_role (o : Option Role) :
    asOptional asRole (optional (fun r : Role => .str r.text) o) = some o :=
  asOptional_optional o (fun r => by cases r <;> rfl) nofun

theorem mapM_map_eq_some {α β : Type} {write : α → β} {read : β → Option α} {l : List α}
    (back : ∀ a ∈ l, read (write a) = some a) : (l.map write).mapM read = some l := by
  induction l with
  | nil => rfl
  | cons a l ih =>
    have later := ih fun b member => back b (List.mem_cons_of_mem a member)
    simp [back a List.mem_cons_self, later]

@[simp] theorem asList_nats (l : List Nat) :
    asList asNat (.arr (l.map fun id : Nat => .int id)) = some l :=
  mapM_map_eq_some fun _ _ => rfl

/-- `_fact_from_json`. -/
def readFact (v : Json) : Option TypedCausalFact := do
  let fields ← asFields v
  knows fields ["asserted", "causes", "event_id", "event_time", "fact_id", "observed_at",
    "polarity", "predicate", "scope", "source_id", "source_sha256", "source_span", "subject",
    "unit", "value", "version"]
  let made := TypedCausalFact.make {
    factId := ← need fields "fact_id" asNat
    scope := ← need fields "scope" asStr
    subject := ← need fields "subject" asStr
    predicate := ← need fields "predicate" asStr
    value := ← need fields "value" asStr
    observedAt := ← need fields "observed_at" asNat
    eventTime := ← need fields "event_time" asNat
    version := ← want fields "version" 1 asNat
    unit := ← want fields "unit" "" asStr
    polarity := ← want fields "polarity" 1 asInt
    asserted := ← want fields "asserted" true asBool
    eventId := ← want fields "event_id" "" asStr
    causes := ← want fields "causes" [] (asList asNat)
    sourceId := ← want fields "source_id" "" asStr
    sourceSha256 := ← want fields "source_sha256" "" asStr
    sourceSpan := ← need fields "source_span" asSpan }
  made.toOption

theorem readFact_factPayload (fact : TypedCausalFact) :
    readFact (factPayload fact.toFactFields) = some fact := by
  have made := TypedCausalFact.make_eq_ok.mpr (rfl : fact.toFactFields = fact.toFactFields)
  have shape : readFact (factPayload fact.toFactFields) =
      (asList asNat (.arr (fact.causes.map fun id : Nat => .int id))).bind fun causes =>
        (TypedCausalFact.make { fact.toFactFields with causes }).toOption := rfl
  rw [shape, asList_nats, bind_some, made]
  rfl

theorem ordered_ints (l : List Nat) : (Json.arr (l.map fun id : Nat => .int id)).Ordered := by
  simp [Json.Ordered]

theorem ordered_factPayload (f : FactFields) : (factPayload f).Ordered := by
  refine ⟨by simp only [Json.KeysOrdered, List.map]; decide, ?_⟩
  simp [Json.OrderedFields, Json.Ordered, Json.OrderedItems]

def readLifecycle (v : Json) : Option SidecarLifecycle := do
  let fields ← asFields v
  knows fields ["authorization_reference", "purpose", "supersedes", "valid_from", "valid_until"]
  let l : LifecycleFields := {
    validFrom := ← need fields "valid_from" asNat
    validUntil := ← need fields "valid_until" (asOptional asNat)
    purpose := ← need fields "purpose" asStr
    authorizationReference := ← need fields "authorization_reference" asStr
    supersedes := ← want fields "supersedes" [] (asList asNat) }
  if checked : l.Checked then some ⟨l, checked⟩ else none

theorem readLifecycle_lifecyclePayload (l : SidecarLifecycle) :
    readLifecycle (lifecyclePayload l.toLifecycleFields) = some l := by
  have shape : readLifecycle (lifecyclePayload l.toLifecycleFields) =
      (asOptional asNat (optional (fun n : Nat => .int n) l.validUntil)).bind fun validUntil =>
        (asList asNat (.arr (l.supersedes.map fun id : Nat => .int id))).bind fun supersedes =>
          let read : LifecycleFields := { l.toLifecycleFields with validUntil, supersedes }
          if checked : read.Checked then some ⟨read, checked⟩ else none := rfl
  rw [shape, asOptional_nat, bind_some, asList_nats, bind_some]
  exact dif_pos l.checked

theorem ordered_optional {α : Type} {write : α → Json} (o : Option α)
    (inside : ∀ a, (write a).Ordered) : (optional write o).Ordered := by
  cases o with
  | none => trivial
  | some a => exact inside a

theorem ordered_lifecyclePayload (l : LifecycleFields) : (lifecyclePayload l).Ordered := by
  refine ⟨by simp only [Json.KeysOrdered, List.map]; decide, ?_⟩
  exact ⟨trivial, trivial, ordered_ints _, trivial, ordered_optional _ fun _ => trivial, trivial⟩

def readIntent (v : Json) : Option SidecarObservedIntent := do
  let fields ← asFields v
  let i : IntentFields := {
    intentId := ← need fields "intent_id" asStr
    text := ← need fields "text" asStr
    factIds := ← need fields "fact_ids" (asList asNat)
    insertionOrder := ← need fields "insertion_order" asNat
    turnIndex := ← want fields "turn_index" none (asOptional asNat)
    sessionId := ← want fields "session_id" none (asOptional asStr) }
  if checked : i.Checked then some ⟨i, checked⟩ else none

theorem readIntent_intentPayload (i : SidecarObservedIntent) :
    readIntent (intentPayload i.toIntentFields) = some i := by
  have shape : readIntent (intentPayload i.toIntentFields) =
      (asList asNat (.arr (i.factIds.map fun id : Nat => .int id))).bind fun factIds =>
        (asOptional asNat (optional (fun n : Nat => .int n) i.turnIndex)).bind fun turnIndex =>
          (asOptional asStr (optional .str i.sessionId)).bind fun sessionId =>
            let read : IntentFields := { i.toIntentFields with factIds, turnIndex, sessionId }
            if checked : read.Checked then some ⟨read, checked⟩ else none := rfl
  rw [shape, asList_nats, bind_some, asOptional_nat, bind_some, asOptional_str, bind_some]
  exact dif_pos i.checked

theorem ordered_intentPayload (i : IntentFields) : (intentPayload i).Ordered := by
  refine ⟨by simp only [Json.KeysOrdered, List.map]; decide, ?_⟩
  exact ⟨ordered_ints _, trivial, trivial, ordered_optional _ fun _ => trivial, trivial,
    ordered_optional _ fun _ => trivial, trivial⟩

def readRouteMetadata (v : Json) : Option SidecarRouteMetadata := do
  let fields ← asFields v
  knows fields ["event_time", "generation_id", "observed_intents", "role", "scope_id", "sequence",
    "session_id", "span", "speaker", "version"]
  let m : RouteFields := {
    scopeId := ← need fields "scope_id" asNat
    sessionId := ← need fields "session_id" asStr
    version := ← need fields "version" asNat
    generationId := ← want fields "generation_id" none (asOptional asNat)
    sequence := ← want fields "sequence" none (asOptional asNat)
    eventTime := ← want fields "event_time" none (asOptional asNat)
    role := ← want fields "role" none (asOptional asRole)
    speaker := ← want fields "speaker" none (asOptional asStr)
    span := ← want fields "span" none (asOptional asSpan)
    observedIntents := ← want fields "observed_intents" [] (asList readIntent) }
  if checked : m.Checked then some ⟨m, checked⟩ else none

private def readWritten (m : RouteFields) (intents : Option (List SidecarObservedIntent)) :
    Option SidecarRouteMetadata := do
  let generationId ← asOptional asNat (optional (fun n : Nat => .int n) m.generationId)
  let sequence ← asOptional asNat (optional (fun n : Nat => .int n) m.sequence)
  let eventTime ← asOptional asNat (optional (fun n : Nat => .int n) m.eventTime)
  let role ← asOptional asRole (optional (fun r : Role => .str r.text) m.role)
  let speaker ← asOptional asStr (optional .str m.speaker)
  let span ← asOptional asSpan (optional (fun s : Nat × Nat => .arr [.int s.1, .int s.2]) m.span)
  let observedIntents ← intents
  let read : RouteFields := { m with
    generationId, sequence, eventTime, role, speaker, span, observedIntents }
  if checked : read.Checked then some ⟨read, checked⟩ else none

theorem readRouteMetadata_routeMetadataPayload (m : SidecarRouteMetadata) :
    readRouteMetadata (routeMetadataPayload m.toRouteFields) = some m := by
  have intents : asList readIntent
      (.arr (m.observedIntents.map fun i => intentPayload i.toIntentFields)) =
        some m.observedIntents :=
    mapM_map_eq_some fun i _ => readIntent_intentPayload i
  have shape : readRouteMetadata (routeMetadataPayload m.toRouteFields) =
      readWritten m.toRouteFields (some m.observedIntents) := by
    unfold routeMetadataPayload
    split
    · rename_i empty
      rw [empty]
      rfl
    · rw [← intents]
      rfl
  rw [shape]
  simp only [readWritten, asOptional_nat, asOptional_role, asOptional_str, asOptional_span,
    Option.bind_eq_bind, bind_some]
  exact dif_pos m.checked

theorem ordered_routeMetadataPayload (m : RouteFields) : (routeMetadataPayload m).Ordered := by
  have intents : (Json.arr (m.observedIntents.map fun i =>
      intentPayload i.toIntentFields)).Ordered := by
    simp [Json.Ordered, ordered_intentPayload]
  have role : (optional (fun r : Role => .str r.text) m.role).Ordered :=
    ordered_optional _ fun _ => trivial
  have span : (optional (fun s : Nat × Nat => .arr [.int s.1, .int s.2]) m.span).Ordered :=
    ordered_optional _ fun _ => ⟨trivial, trivial, trivial⟩
  have number (o : Option Nat) : (optional (fun n : Nat => .int n) o).Ordered :=
    ordered_optional _ fun _ => trivial
  have speaker : (optional .str m.speaker).Ordered := ordered_optional _ fun _ => trivial
  unfold routeMetadataPayload
  split
  · refine ⟨by simp only [Json.KeysOrdered, List.map_append, List.map]; decide, ?_⟩
    exact ⟨number _, number _, role, trivial, number _, trivial, span, speaker, trivial, trivial⟩
  · refine ⟨by simp only [Json.KeysOrdered, List.map_append, List.map]; decide, ?_⟩
    exact ⟨number _, number _, intents, role, trivial, number _, trivial, span, speaker, trivial,
      trivial⟩

/-- `_attested_to_json`. -/
def attestedPayload (item : AttestedSidecarFact) : Json := .obj (
  [("attestation_sha256", .str item.attestationSha256),
   ("authority_sha256", .str item.authoritySha256),
   ("fact", factPayload item.fact.toFactFields),
   ("lifecycle", lifecyclePayload item.lifecycle.toLifecycleFields)] ++
  match item.routeMetadata with
  | none => []
  | some m => [("route_metadata", routeMetadataPayload m.toRouteFields)])

/-- `_attested_from_json`. -/
def readAttested (v : Json) : Option AttestedSidecarFact := do
  let fields ← asFields v
  let fact ← need fields "fact" readFact
  let lifecycle ← need fields "lifecycle" readLifecycle
  let authority ← need fields "authority_sha256" asStr
  let attestation ← need fields "attestation_sha256" asStr
  let metadata ← want fields "route_metadata" none (asOptional readRouteMetadata)
  if checked : isSha256 authority = true ∧ isSha256 attestation = true then
    some ⟨fact, lifecycle, authority, attestation, metadata, checked⟩
  else none

theorem readAttested_attestedPayload (item : AttestedSidecarFact) :
    readAttested (attestedPayload item) = some item := by
  have fact := readFact_factPayload item.fact
  have lifecycle := readLifecycle_lifecyclePayload item.lifecycle
  have shape : readAttested (attestedPayload item) =
      (readFact (factPayload item.fact.toFactFields)).bind fun fact =>
        (readLifecycle (lifecyclePayload item.lifecycle.toLifecycleFields)).bind fun lifecycle =>
          (some item.routeMetadata).bind fun metadata =>
            if checked : isSha256 item.authoritySha256 = true ∧
                isSha256 item.attestationSha256 = true then
              some ⟨fact, lifecycle, item.authoritySha256, item.attestationSha256, metadata,
                checked⟩
            else none := by
    unfold attestedPayload
    cases metadata : item.routeMetadata with
    | none => rfl
    | some m =>
      have back : asOptional readRouteMetadata (routeMetadataPayload m.toRouteFields) =
          some (some m) :=
        congrArg (Option.map some) (readRouteMetadata_routeMetadataPayload m)
      rw [← back]
      rfl
  rw [shape, fact, bind_some, lifecycle, bind_some, bind_some]
  exact dif_pos item.checked

theorem ordered_attestedPayload (item : AttestedSidecarFact) : (attestedPayload item).Ordered := by
  have fact := ordered_factPayload item.fact.toFactFields
  have lifecycle := ordered_lifecyclePayload item.lifecycle.toLifecycleFields
  unfold attestedPayload
  cases item.routeMetadata with
  | none =>
    refine ⟨by simp only [Json.KeysOrdered, List.map_append, List.map]; decide, ?_⟩
    exact ⟨trivial, trivial, fact, lifecycle, trivial⟩
  | some m =>
    refine ⟨by simp only [Json.KeysOrdered, List.map_append, List.map]; decide, ?_⟩
    exact ⟨trivial, trivial, fact, lifecycle, ordered_routeMetadataPayload _, trivial⟩

/-- `asdict(claim)`. -/
def claimPayload (claim : AttestedCompletenessClaim) : Json := .obj [
  ("attestation_sha256", .str claim.attestationSha256),
  ("authority_sha256", .str claim.authoritySha256),
  ("fact_ids", .arr (claim.factIds.map fun id : Nat => .int id)),
  ("predicate", .str claim.predicate),
  ("scope", .str claim.scope),
  ("source_id", .str claim.sourceId),
  ("source_sha256", .str claim.sourceSha256),
  ("subject", .str claim.subject)]

/-- `_claim_from_json`. -/
def readClaim (v : Json) : Option AttestedCompletenessClaim := do
  let fields ← asFields v
  knows fields ["attestation_sha256", "authority_sha256", "fact_ids", "predicate", "scope",
    "source_id", "source_sha256", "subject"]
  return {
    scope := ← need fields "scope" asStr
    subject := ← need fields "subject" asStr
    predicate := ← need fields "predicate" asStr
    factIds := ← want fields "fact_ids" [] (asList asNat)
    sourceId := ← need fields "source_id" asStr
    sourceSha256 := ← need fields "source_sha256" asStr
    authoritySha256 := ← need fields "authority_sha256" asStr
    attestationSha256 := ← need fields "attestation_sha256" asStr }

theorem readClaim_claimPayload (claim : AttestedCompletenessClaim) :
    readClaim (claimPayload claim) = some claim := by
  have shape : readClaim (claimPayload claim) =
      (asList asNat (.arr (claim.factIds.map fun id : Nat => .int id))).bind fun factIds =>
        some { claim with factIds } := rfl
  rw [shape, asList_nats, bind_some]

theorem ordered_claimPayload (claim : AttestedCompletenessClaim) :
    (claimPayload claim).Ordered := by
  refine ⟨by simp only [Json.KeysOrdered, List.map]; decide, ?_⟩
  exact ⟨trivial, trivial, ordered_ints _, trivial, trivial, trivial, trivial, trivial, trivial⟩

/-- One record of the ledger. -/
structure SidecarRecord where
  sequence : Nat
  previousSha256 : String
  scope : String
  adapterId : String
  authoritySha256 : String
  sourceId : String
  content : String
  sourceSha256 : String
  facts : List AttestedSidecarFact
  completenessClaims : List AttestedCompletenessClaim
  recordSha256 : String
  deriving DecidableEq

namespace SidecarRecord

def schema : String := "horizon.authorized-sidecar-batch.v1"

def unsigned (r : SidecarRecord) : Json := .obj [
  ("adapter_id", .str r.adapterId),
  ("authority_sha256", .str r.authoritySha256),
  ("completeness_claims", .arr (r.completenessClaims.map claimPayload)),
  ("content", .str r.content),
  ("facts", .arr (r.facts.map attestedPayload)),
  ("previous_sha256", .str r.previousSha256),
  ("schema", .str schema),
  ("scope", .str r.scope),
  ("sequence", .int r.sequence),
  ("source_id", .str r.sourceId),
  ("source_sha256", .str r.sourceSha256)]

def json (r : SidecarRecord) : Json := .obj [
  ("adapter_id", .str r.adapterId),
  ("authority_sha256", .str r.authoritySha256),
  ("completeness_claims", .arr (r.completenessClaims.map claimPayload)),
  ("content", .str r.content),
  ("facts", .arr (r.facts.map attestedPayload)),
  ("previous_sha256", .str r.previousSha256),
  ("record_sha256", .str r.recordSha256),
  ("schema", .str schema),
  ("scope", .str r.scope),
  ("sequence", .int r.sequence),
  ("source_id", .str r.sourceId),
  ("source_sha256", .str r.sourceSha256)]

variable (c : Crypto)

/-- `_record_hash`. -/
def hash (r : SidecarRecord) : String := hexSha256 c (canonicalJson r.unsigned)

def signed (r : SidecarRecord) : SidecarRecord := { r with recordSha256 := r.hash c }

/-- `_canonical(record)`. -/
def bytes (r : SidecarRecord) : Bytes := canonicalJson r.json

theorem ordered_json (r : SidecarRecord) : r.json.Ordered := by
  have facts : (Json.arr (r.facts.map attestedPayload)).Ordered := by
    simp [Json.Ordered, ordered_attestedPayload]
  have claims : (Json.arr (r.completenessClaims.map claimPayload)).Ordered := by
    simp [Json.Ordered, ordered_claimPayload]
  refine ⟨by simp only [Json.KeysOrdered, List.map]; decide, ?_⟩
  exact ⟨trivial, trivial, claims, trivial, facts, trivial, trivial, trivial, trivial, trivial,
    trivial, trivial, trivial⟩

def ofFields (fields : List (String × Json)) : Option SidecarRecord := do
  return {
    sequence := ← need fields "sequence" asNat
    previousSha256 := ← need fields "previous_sha256" asStr
    scope := ← need fields "scope" asStr
    adapterId := ← need fields "adapter_id" asStr
    authoritySha256 := ← need fields "authority_sha256" asStr
    sourceId := ← need fields "source_id" asStr
    content := ← need fields "content" asStr
    sourceSha256 := ← need fields "source_sha256" asStr
    facts := ← need fields "facts" (asList readAttested)
    completenessClaims := ← need fields "completeness_claims" (asList readClaim)
    recordSha256 := ← need fields "record_sha256" asStr }

/-- The record an object spells.  Its digest is taken of the record as it is written again, so an
object with keys that are never written is refused. -/
def ofJson (value : Json) : Except PyError SidecarRecord := do
  let fields ← orThrow (asFields value)
    (PyError.valueError "durable sidecar record must be an object")
  let r ← orThrow (ofFields fields) (PyError.valueError "durable sidecar record payload is invalid")
  require (need fields "schema" asStr = some schema ∧ r.recordSha256 = r.hash c)
    (PyError.valueError "durable sidecar ledger chain or digest is invalid")
  return r

def read (sequence : Nat) (previous : String) (raw : Bytes) : Except PyError SidecarRecord := do
  require (raw ≠ []) (PyError.valueError "durable sidecar ledger contains a truncated record")
  let line ← orThrow (decode raw)
    (PyError.valueError "durable sidecar ledger contains invalid JSON")
  let value ← orThrow (Json.loads line.toList)
    (PyError.valueError "durable sidecar ledger contains invalid JSON")
  let r ← ofJson c value
  require (r.sequence = sequence ∧ r.previousSha256 = previous)
    (PyError.valueError "durable sidecar ledger chain or digest is invalid")
  return r

def reload (r : SidecarRecord) : Except PyError SidecarRecord := do
  let value ← orThrow (Json.loads r.json.dumps)
    (PyError.valueError "serialized sidecar record must remain an object")
  ofJson c value

theorem loads_bytes (r : SidecarRecord) :
    ∃ line, decode r.bytes = some line ∧ Json.loads line.toList = some r.json := by
  refine ⟨_, decode_encode _, ?_⟩
  rw [String.toList_ofList]
  exact Json.loads_dumps r.ordered_json

theorem bytes_ne_nil (r : SidecarRecord) : r.bytes ≠ [] := by
  intro empty
  obtain ⟨line, decoded, loaded⟩ := r.loads_bytes
  rw [empty] at decoded
  cases decoded
  cases loaded

theorem ofFields_json (r : SidecarRecord) : ∃ fields, asFields r.json = some fields ∧
    need fields "schema" asStr = some schema ∧ ofFields fields = some r := by
  have facts : asList readAttested (.arr (r.facts.map attestedPayload)) = some r.facts :=
    mapM_map_eq_some fun item _ => readAttested_attestedPayload item
  have claims : asList readClaim (.arr (r.completenessClaims.map claimPayload)) =
      some r.completenessClaims :=
    mapM_map_eq_some fun claim _ => readClaim_claimPayload claim
  have shape : ∃ fields, asFields r.json = some fields ∧
      need fields "schema" asStr = some schema ∧
      ofFields fields = (asList readAttested (.arr (r.facts.map attestedPayload))).bind fun facts =>
        (asList readClaim (.arr (r.completenessClaims.map claimPayload))).bind fun claims =>
          some { r with facts, completenessClaims := claims } :=
    ⟨_, rfl, rfl, rfl⟩
  obtain ⟨fields, object, isSchema, spelled⟩ := shape
  rw [facts, bind_some, claims, bind_some] at spelled
  exact ⟨fields, object, isSchema, spelled⟩

variable {r : SidecarRecord}

theorem ofJson_json (signature : r.recordSha256 = r.hash c) : ofJson c r.json = .ok r := by
  obtain ⟨fields, object, isSchema, spelled⟩ := r.ofFields_json
  rw [ofJson, object, orThrow_some, ok_bind, spelled, orThrow_some, ok_bind,
    require_of ⟨isSchema, signature⟩]
  rfl

theorem read_bytes (signature : r.recordSha256 = r.hash c) :
    read c r.sequence r.previousSha256 r.bytes = .ok r := by
  obtain ⟨line, decoded, loaded⟩ := r.loads_bytes
  rw [read, require_of r.bytes_ne_nil, ok_bind, decoded, orThrow_some, ok_bind, loaded,
    orThrow_some, ok_bind, ofJson_json c signature, ok_bind, require_of ⟨rfl, rfl⟩]
  rfl

theorem of_read {sequence : Nat} {previous : String} {raw : Bytes}
    (h : read c sequence previous raw = .ok r) :
    r.sequence = sequence ∧ r.previousSha256 = previous ∧ r.recordSha256 = r.hash c := by
  simp only [read, ofJson, bind_eq_ok, require_eq_ok, orThrow_eq_ok, pure_eq_ok] at h
  obtain ⟨-, -, line, -, value, -, r', ⟨fields, -, r'', -, -, ⟨-, signature⟩, rfl⟩, -,
    ⟨atSequence, atPrevious⟩, rfl⟩ := h
  exact ⟨atSequence, atPrevious, signature⟩

theorem reload_eq_ok (signature : r.recordSha256 = r.hash c) : reload c r = .ok r := by
  rw [reload, Json.loads_dumps r.ordered_json, orThrow_some, ok_bind, ofJson_json c signature]

/-- The line of a record is accepted exactly where the record stands in its chain and if it is
signed, and by no other record; and no two records have one line. -/
theorem read_bytes_iff (c : Crypto) (r r' : SidecarRecord) (sequence : Nat) (previous : String) :
    (read c sequence previous r.bytes = .ok r' ↔ r' = r ∧ r.sequence = sequence ∧
      r.previousSha256 = previous ∧ r.recordSha256 = r.hash c) ∧ (r.bytes = r'.bytes → r = r') := by
  have reads (s : SidecarRecord) : ∃ line, decode s.bytes = some line ∧
      ((Json.loads line.toList).bind asFields).bind ofFields = some s := by
    obtain ⟨line, decoded, loaded⟩ := s.loads_bytes
    obtain ⟨fields, object, -, spelled⟩ := s.ofFields_json
    exact ⟨line, decoded, by rw [loaded, Option.bind_some, object, Option.bind_some, spelled]⟩
  obtain ⟨line, decoded, spells⟩ := reads r
  constructor
  · constructor
    · intro accepted
      obtain ⟨atSequence, atPrevious, signature⟩ := of_read c accepted
      simp only [read, ofJson, bind_eq_ok, require_eq_ok, orThrow_eq_ok, pure_eq_ok] at accepted
      obtain ⟨-, -, line', decoded', value, loaded, r₁, ⟨fields, object, r₂, spelled, -, -, rfl⟩, -,
        -, rfl⟩ := accepted
      cases decoded.symm.trans decoded'
      rw [loaded, Option.bind_some, object, Option.bind_some, spelled] at spells
      cases spells
      exact ⟨rfl, atSequence, atPrevious, signature⟩
    · rintro ⟨rfl, rfl, rfl, signature⟩
      exact read_bytes c signature
  · intro same
    obtain ⟨line', decoded', spells'⟩ := reads r'
    rw [← same, decoded] at decoded'
    cases decoded'
    exact Option.some.inj (spells.symm.trans spells')

end SidecarRecord

end ProofRay.Sidecar
