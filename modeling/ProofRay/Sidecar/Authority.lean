/- What a host authorises and what it attests: manifests, lifecycles, routing coordinates, facts and
   completeness claims, each sealed by a digest. -/

import ProofRay.Sidecar.Facts

namespace ProofRay.Sidecar

open Engine (Crypto PyError)
open Lib (Json)
open Lib.Guard

structure AuthorityFields where
  adapterId : String
  ruleId : String
  ruleVersion : Nat
  schemaSha256 : String
  allowedScopes : List String
  allowedPredicates : List String
  purpose : String
  closedWorldPredicates : List String
  deriving DecidableEq, Repr

/-- `SidecarAuthority.__post_init__`. -/
def AuthorityFields.Checked (a : AuthorityFields) : Prop :=
  (a.adapterId ≠ "" ∧ a.ruleId ≠ "" ∧ 1 ≤ a.ruleVersion ∧ a.purpose ≠ "") ∧
  isSha256 a.schemaSha256 = true ∧
  (a.allowedScopes ≠ [] ∧ Canonical a.allowedScopes ∧ "" ∉ a.allowedScopes) ∧
  (a.allowedPredicates ≠ [] ∧ Canonical a.allowedPredicates ∧ "" ∉ a.allowedPredicates) ∧
  (Canonical a.closedWorldPredicates ∧ ∀ p ∈ a.closedWorldPredicates, p ∈ a.allowedPredicates)

instance (a : AuthorityFields) : Decidable a.Checked := by
  unfold AuthorityFields.Checked
  infer_instance

/-- `SidecarAuthority`. -/
structure SidecarAuthority extends AuthorityFields where
  checked : toAuthorityFields.Checked
  deriving DecidableEq

namespace SidecarAuthority

/-- `SidecarAuthority.canonical_payload`. -/
def canonicalPayload (a : SidecarAuthority) : Json := .obj [
  ("adapter_id", .str a.adapterId),
  ("allowed_predicates", .arr (a.allowedPredicates.map .str)),
  ("allowed_scopes", .arr (a.allowedScopes.map .str)),
  ("closed_world_predicates", .arr (a.closedWorldPredicates.map .str)),
  ("purpose", .str a.purpose),
  ("rule_id", .str a.ruleId),
  ("rule_version", .int a.ruleVersion),
  ("schema_sha256", .str a.schemaSha256)]

/-- `SidecarAuthority.authority_sha256`. -/
def sha256 (c : Crypto) (a : SidecarAuthority) : String :=
  digest c "HORIZON-SIDECAR-AUTHORITY-v1" a.canonicalPayload

/-- `SidecarAuthority.permits`. -/
def permits (a : SidecarAuthority) (fact : FactFields) : Bool :=
  fact.scope ∈ a.allowedScopes && fact.predicate ∈ a.allowedPredicates

end SidecarAuthority

structure LifecycleFields where
  validFrom : Nat
  validUntil : Option Nat
  purpose : String
  authorizationReference : String
  supersedes : List Nat
  deriving DecidableEq, Repr

/-- `SidecarLifecycle.__post_init__`. -/
def LifecycleFields.Checked (l : LifecycleFields) : Prop :=
  (∀ stop ∈ l.validUntil, l.validFrom < stop) ∧ l.purpose ≠ "" ∧ l.authorizationReference ≠ "" ∧
    Canonical l.supersedes

instance (l : LifecycleFields) : Decidable l.Checked := by
  unfold LifecycleFields.Checked
  infer_instance

/-- `SidecarLifecycle`. -/
structure SidecarLifecycle extends LifecycleFields where
  checked : toLifecycleFields.Checked
  deriving DecidableEq

/-- `SidecarLifecycle.is_valid_at`. -/
def LifecycleFields.isValidAt (l : LifecycleFields) (instant : Int) : Bool :=
  (l.validFrom : Int) ≤ instant && l.validUntil.all fun stop => instant < (stop : Int)

structure IntentFields where
  intentId : String
  text : String
  factIds : List Nat
  insertionOrder : Nat
  turnIndex : Option Nat
  sessionId : Option String
  deriving DecidableEq, Repr

/-- `SidecarObservedIntent.__post_init__`. -/
def IntentFields.Checked (i : IntentFields) : Prop :=
  i.intentId ≠ "" ∧ i.text ≠ "" ∧ i.factIds ≠ [] ∧ Canonical i.factIds ∧ i.sessionId ≠ some ""

instance (i : IntentFields) : Decidable i.Checked := by
  unfold IntentFields.Checked
  infer_instance

/-- `SidecarObservedIntent`. -/
structure SidecarObservedIntent extends IntentFields where
  checked : toIntentFields.Checked
  deriving DecidableEq

/-- The roles of a turn. -/
inductive Role where
  | user
  | assistant
  | system
  | tool
  deriving DecidableEq, Repr

def Role.text : Role → String
  | .user => "user"
  | .assistant => "assistant"
  | .system => "system"
  | .tool => "tool"

/-- A character `str.strip` removes. -/
def isBlank (ch : Char) : Bool :=
  let n := ch.toNat
  (9 ≤ n && n ≤ 13) || (28 ≤ n && n ≤ 32) || n = 0x85 || n = 0xa0 || n = 0x1680 ||
    (0x2000 ≤ n && n ≤ 0x200a) || n = 0x2028 || n = 0x2029 || n = 0x202f || n = 0x205f ||
    n = 0x3000

/-- `not text.strip()`. -/
def blank (s : String) : Bool := s.toList.all isBlank

structure RouteFields where
  scopeId : Nat
  sessionId : String
  version : Nat
  generationId : Option Nat
  sequence : Option Nat
  eventTime : Option Nat
  role : Option Role
  speaker : Option String
  span : Option (Nat × Nat)
  observedIntents : List SidecarObservedIntent
  deriving DecidableEq

/-- `SidecarRouteMetadata.__post_init__`. -/
def RouteFields.Checked (m : RouteFields) : Prop :=
  m.scopeId < 2 ^ 32 ∧ m.sessionId ≠ "" ∧ (1 ≤ m.version ∧ m.version < 2 ^ 32) ∧
  (∀ name ∈ m.speaker, blank name = false) ∧
  (∀ s ∈ m.span, s.1 < s.2) ∧
  Canonical (m.observedIntents.map fun i => i.intentId)

instance (m : RouteFields) : Decidable m.Checked := by
  unfold RouteFields.Checked
  infer_instance

/-- `SidecarRouteMetadata`. -/
structure SidecarRouteMetadata extends RouteFields where
  checked : toRouteFields.Checked
  deriving DecidableEq

def optional {α : Type} (write : α → Json) : Option α → Json
  | none => .null
  | some a => write a

/-- `asdict(lifecycle)`. -/
def lifecyclePayload (l : LifecycleFields) : Json := .obj [
  ("authorization_reference", .str l.authorizationReference),
  ("purpose", .str l.purpose),
  ("supersedes", .arr (l.supersedes.map fun id : Nat => .int id)),
  ("valid_from", .int l.validFrom),
  ("valid_until", optional (fun n : Nat => .int n) l.validUntil)]

def intentPayload (i : IntentFields) : Json := .obj [
  ("fact_ids", .arr (i.factIds.map fun id : Nat => .int id)),
  ("insertion_order", .int i.insertionOrder),
  ("intent_id", .str i.intentId),
  ("session_id", optional .str i.sessionId),
  ("text", .str i.text),
  ("turn_index", optional (fun n : Nat => .int n) i.turnIndex)]

/-- `_route_metadata_payload`: the intents are left out where there are none. -/
def routeMetadataPayload (m : RouteFields) : Json := .obj (
  [("event_time", optional (fun n : Nat => .int n) m.eventTime),
   ("generation_id", optional (fun n : Nat => .int n) m.generationId)] ++
  (if m.observedIntents = [] then []
   else [("observed_intents",
     .arr (m.observedIntents.map fun i => intentPayload i.toIntentFields))]) ++
  [("role", optional (fun r : Role => .str r.text) m.role),
   ("scope_id", .int m.scopeId),
   ("sequence", optional (fun n : Nat => .int n) m.sequence),
   ("session_id", .str m.sessionId),
   ("span", optional (fun s : Nat × Nat => .arr [.int s.1, .int s.2]) m.span),
   ("speaker", optional .str m.speaker),
   ("version", .int m.version)])

/-- `AttestedSidecarFact`. -/
structure AttestedSidecarFact where
  fact : TypedCausalFact
  lifecycle : SidecarLifecycle
  authoritySha256 : String
  attestationSha256 : String
  routeMetadata : Option SidecarRouteMetadata
  checked : isSha256 authoritySha256 = true ∧ isSha256 attestationSha256 = true
  deriving DecidableEq

def factAttestation (c : Crypto) (authoritySha256 : String) (fact : FactFields)
    (lifecycle : LifecycleFields) (metadata : Option SidecarRouteMetadata) : String :=
  match metadata with
  | none => digest c "HORIZON-SIDECAR-FACT-v1" (.obj [
      ("authority_sha256", .str authoritySha256), ("fact", factPayload fact),
      ("lifecycle", lifecyclePayload lifecycle)])
  | some m =>
    digest c
      (if m.observedIntents = [] then "HORIZON-SIDECAR-FACT-v2" else "HORIZON-SIDECAR-FACT-v3")
      (.obj [("authority_sha256", .str authoritySha256), ("fact", factPayload fact),
        ("lifecycle", lifecyclePayload lifecycle),
        ("route_metadata", routeMetadataPayload m.toRouteFields)])

theorem isSha256_factAttestation (c : Crypto) (sha : String) (fact : FactFields)
    (lifecycle : LifecycleFields) (metadata : Option SidecarRouteMetadata) :
    isSha256 (factAttestation c sha fact lifecycle metadata) = true := by
  cases metadata <;> exact isSha256_digest c _ _

namespace AttestedSidecarFact

variable (c : Crypto)

/-- `AttestedSidecarFact.seal` under a lifecycle that is given. -/
def sealed (fact : TypedCausalFact) (authority : SidecarAuthority) (lifecycle : SidecarLifecycle)
    (metadata : Option SidecarRouteMetadata) : Except PyError AttestedSidecarFact := do
  require (lifecycle.purpose = authority.purpose ∧ fact.factId ∉ lifecycle.supersedes)
    (PyError.valueError "fact lifecycle is outside its authority or self-superseding")
  require (∀ m ∈ metadata, fact.version = m.version)
    (PyError.valueError "route metadata disagrees with its typed fact")
  return ⟨fact, lifecycle, authority.sha256 c,
    factAttestation c (authority.sha256 c) fact.toFactFields lifecycle.toLifecycleFields metadata,
    metadata, isSha256_digest c _ _, isSha256_factAttestation c _ _ _ _⟩

/-- `AttestedSidecarFact.verify`. -/
def verify (item : AttestedSidecarFact) (authority : SidecarAuthority)
    (source : CausalSourceEnvelope) : Bool :=
  item.authoritySha256 = authority.sha256 c &&
    match sealed c item.fact authority item.lifecycle item.routeMetadata with
    | .error _ => false
    | .ok expected =>
      item.attestationSha256 = expected.attestationSha256 &&
        authority.permits item.fact.toFactFields &&
        verifyMicrocitation c item.fact.toFactFields source

theorem verify_eq_true {item : AttestedSidecarFact} {authority : SidecarAuthority}
    {source : CausalSourceEnvelope} : item.verify c authority source = true ↔
      sealed c item.fact authority item.lifecycle item.routeMetadata = .ok item ∧
        authority.permits item.fact.toFactFields = true ∧
        verifyMicrocitation c item.fact.toFactFields source = true := by
  obtain ⟨fact, lifecycle, authoritySha, attestation, metadata, checked⟩ := item
  cases made : sealed c fact authority lifecycle metadata with
  | error e => simp [verify, made]
  | ok expected =>
    have form := made
    simp only [sealed, bind_eq_ok, require_eq_ok, pure_eq_ok] at form
    obtain ⟨-, -, -, -, rfl⟩ := form
    simp only [verify, made, Bool.and_eq_true, decide_eq_true_eq, Except.ok.injEq,
      AttestedSidecarFact.mk.injEq, true_and]
    constructor
    · rintro ⟨rfl, ⟨rfl, permitted⟩, cited⟩
      exact ⟨⟨rfl, rfl, trivial⟩, permitted, cited⟩
    · rintro ⟨⟨rfl, rfl, -⟩, permitted, cited⟩
      exact ⟨rfl, ⟨rfl, permitted⟩, cited⟩

end AttestedSidecarFact

/-- `AttestedCompletenessClaim`. -/
structure AttestedCompletenessClaim where
  scope : String
  subject : String
  predicate : String
  factIds : List Nat
  sourceId : String
  sourceSha256 : String
  authoritySha256 : String
  attestationSha256 : String
  deriving DecidableEq, Repr

namespace AttestedCompletenessClaim

variable (c : Crypto)

def key (claim : AttestedCompletenessClaim) : Key := (claim.subject, claim.predicate)

def attestation (authority : SidecarAuthority) (source : CausalSourceEnvelope)
    (scope subject predicate : String) (factIds : List Nat) : String :=
  digest c "HORIZON-SIDECAR-COMPLETENESS-v1" (.obj [
    ("authority_sha256", .str (authority.sha256 c)),
    ("fact_ids", .arr (factIds.map fun id : Nat => .int id)),
    ("predicate", .str predicate),
    ("scope", .str scope),
    ("source_id", .str source.sourceId),
    ("source_sha256", .str source.sha256),
    ("subject", .str subject)])

/-- `AttestedCompletenessClaim.seal_for_scope`. -/
def sealForScope (authority : SidecarAuthority) (source : CausalSourceEnvelope)
    (scope subject predicate : String) (factIds : List Nat) :
    Except PyError AttestedCompletenessClaim := do
  require (scope ≠ "" ∧ scope ∈ authority.allowedScopes ∧ subject ≠ "" ∧
      predicate ∈ authority.closedWorldPredicates ∧ Canonical factIds)
    (PyError.valueError "invalid or unauthorized sidecar completeness claim")
  return ⟨scope, subject, predicate, factIds, source.sourceId, source.sha256, authority.sha256 c,
    attestation c authority source scope subject predicate factIds⟩

/-- `AttestedCompletenessClaim.verify`. -/
def verify (claim : AttestedCompletenessClaim) (authority : SidecarAuthority)
    (source : CausalSourceEnvelope) : Bool :=
  claim.scope ∈ authority.allowedScopes &&
    claim.predicate ∈ authority.closedWorldPredicates &&
    claim.sourceId = source.sourceId && claim.sourceSha256 = source.sha256 &&
    claim.authoritySha256 = authority.sha256 c && source.verify c &&
    match sealForScope c authority source claim.scope claim.subject claim.predicate
      claim.factIds with
    | .error _ => false
    | .ok expected => claim.attestationSha256 = expected.attestationSha256

theorem verify_eq_true {claim : AttestedCompletenessClaim} {authority : SidecarAuthority}
    {source : CausalSourceEnvelope} : claim.verify c authority source = true ↔
      source.verify c = true ∧ sealForScope c authority source claim.scope claim.subject
        claim.predicate claim.factIds = .ok claim := by
  obtain ⟨scope, subject, predicate, factIds, sourceId, sourceSha, authoritySha, attested⟩ := claim
  cases made : sealForScope c authority source scope subject predicate factIds with
  | error e => simp [verify, made]
  | ok expected =>
    have form := made
    simp only [sealForScope, bind_eq_ok, require_eq_ok, pure_eq_ok] at form
    obtain ⟨-, ⟨-, inScope, -, closed, -⟩, rfl⟩ := form
    simp only [verify, made, Bool.and_eq_true, decide_eq_true_eq, Except.ok.injEq,
      AttestedCompletenessClaim.mk.injEq, true_and]
    constructor
    · rintro ⟨⟨⟨⟨⟨-, rfl⟩, rfl⟩, rfl⟩, verified⟩, rfl⟩
      exact ⟨verified, rfl, rfl, rfl, rfl⟩
    · rintro ⟨verified, rfl, rfl, rfl, rfl⟩
      exact ⟨⟨⟨⟨⟨⟨inScope, closed⟩, rfl⟩, rfl⟩, rfl⟩, verified⟩, rfl⟩

end AttestedCompletenessClaim

end ProofRay.Sidecar
