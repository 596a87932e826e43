/- The memory behind a sidecar: the causal memory, and the authorised one that admits a batch only
   whole, attested and in its lineage. -/

import ProofRay.Sidecar.Authority
import ProofRay.Sidecar.Program

namespace ProofRay.Sidecar

open Engine (Crypto PyError)
open Lib (Dict)
open Lib.Guard

inductive IngestState where
  | applied
  | idempotent
  | rejectedAdapter
  | rejectedResourceLimit
  | rejectedAuthority
  | rejectedScope
  | rejectedCapability
  | rejectedAttestation
  | rejectedAttestationCollision
  | rejectedUpdate
  | rejectedCompleteness
  | rejectedProof
  | rejectedSourceCollision
  | rejectedCollision
  | rejectedCausal
  | rejectedDurability
  deriving DecidableEq, Repr

/-- `SidecarIngestReceipt`. -/
structure SidecarIngestReceipt where
  state : IngestState
  adapterId : String
  authoritySha256 : String
  factIds : List Nat
  sourceSha256 : String
  reason : String
  deriving DecidableEq, Repr

/-- `CausalAdapterBatch`, with whatever its adapter declares. -/
structure CausalAdapterBatch (δ : Type) where
  sourceId : String
  content : String
  scope : String
  declarations : List δ

/-- `CausalAdapterBatch.source_sha256`. -/
def CausalAdapterBatch.sourceSha256 {δ : Type} (c : Crypto) (batch : CausalAdapterBatch δ) :
    String :=
  hexSha256 c (encode batch.content)

/-- `SidecarCompilation`; a bare tuple of facts is one without claims. -/
structure SidecarCompilation where
  facts : List AttestedSidecarFact
  completenessClaims : List AttestedCompletenessClaim
  deriving DecidableEq

/-- `SidecarIngestAdapter`: its authority, where it has one, and its compiler, which may raise. -/
structure SidecarIngestAdapter (δ : Type) where
  authority : Option SidecarAuthority
  compileSidecar : CausalAdapterBatch δ → Except String SidecarCompilation

/-- `_ReplayAdapter`. -/
def replayAdapter (δ : Type) (authority : SidecarAuthority) (compilation : SidecarCompilation) :
    SidecarIngestAdapter δ :=
  ⟨some authority, fun _ => .ok compilation⟩

/-- What a check reports when it refuses: a state, the FactIds named and the reason. -/
structure Refusal where
  state : IngestState
  factIds : List Nat
  reason : String
  deriving DecidableEq, Repr

/-- `StandaloneCausalMemory`. -/
structure StandaloneCausalMemory where
  scope : String
  facts : Dict Nat TypedCausalFact
  sources : Dict String CausalSourceEnvelope
  executor : Option TypedCausalExecutor
  deferPublication : Bool
  deriving DecidableEq

namespace StandaloneCausalMemory

variable (c : Crypto)

def new (scope : String) (deferPublication : Bool) : StandaloneCausalMemory :=
  ⟨scope, .empty, .empty, none, deferPublication⟩

/-- `_fork_for_atomic_update`. -/
def fork (m : StandaloneCausalMemory) : StandaloneCausalMemory :=
  { m with deferPublication := false }

/-- `tuple(sorted(facts.values()))`: the FactId comes first in the order of facts. -/
def sortedFacts (facts : Dict Nat TypedCausalFact) : List TypedCausalFact :=
  (facts.sortedBy id).map Prod.snd

/-- `_finalize_publication`. -/
def finalizePublication (m : StandaloneCausalMemory) : Except PyError StandaloneCausalMemory :=
  if m.deferPublication then
    if m.facts.items = [] then .ok { m with executor := none, deferPublication := false }
    else do
      let executor ← TypedCausalExecutor.make (sortedFacts m.facts) m.scope
      return { m with executor := some executor, deferPublication := false }
  else .ok m

def novel (m : StandaloneCausalMemory) (proposed : List TypedCausalFact) : List TypedCausalFact :=
  proposed.filter fun f => (m.facts.get f.factId).isNone

def refuse (m : StandaloneCausalMemory) (source : CausalSourceEnvelope)
    (proposed : List TypedCausalFact) : Option Refusal :=
  let collisions := proposed.filter fun f => (m.facts.get f.factId).any fun known => known ≠ f
  if proposed = [] ∨ ¬ Canonical (proposed.map fun f => f.factId) then
    some ⟨.rejectedAdapter, [], "adapter output must be non-empty and FactId-canonical"⟩
  else if ¬ ∀ f ∈ proposed, f.scope = m.scope ∧ f.sourceId = source.sourceId ∧
      f.sourceSha256 = source.sha256 then
    some ⟨.rejectedAuthority, [], "adapter cannot forge scope or source authority"⟩
  else if ¬ ∀ f ∈ proposed, verifyMicrocitation c f.toFactFields source = true then
    some ⟨.rejectedProof, [], "one or more proposed microcitations do not reopen"⟩
  else if (m.sources.get source.sourceId).any fun known => known.sha256 ≠ source.sha256 then
    some ⟨.rejectedSourceCollision, [], "source identity is immutable across batches"⟩
  else if collisions ≠ [] then
    some ⟨.rejectedCollision, collisions.map fun f => f.factId, "FactId collision is not an update"⟩
  else none

def missing (m : StandaloneCausalMemory) (proposed : List TypedCausalFact) : List Nat :=
  let novel := m.novel proposed
  let known := m.facts.keys ++ novel.map fun f => f.factId
  ((novel.flatMap fun f => f.causes).filter fun cause => cause ∉ known).dedup.insertionSort (· ≤ ·)

def reindex (m : StandaloneCausalMemory) (facts : Dict Nat TypedCausalFact) :
    Except PyError (Option TypedCausalExecutor) :=
  if m.deferPublication then .ok none
  else (TypedCausalExecutor.make (sortedFacts facts) m.scope).map some

def commit (m : StandaloneCausalMemory) (source : CausalSourceEnvelope)
    (proposed : List TypedCausalFact) : Except PyError StandaloneCausalMemory := do
  let facts := m.facts.update ((m.novel proposed).map fun f => (f.factId, f))
  let executor ← m.reindex facts
  return { m with facts := facts, sources := m.sources.set source.sourceId source, executor }

def screen {δ : Type} (m : StandaloneCausalMemory) (batch : CausalAdapterBatch δ)
    (proposed : List TypedCausalFact) : Except Refusal CausalSourceEnvelope := do
  require (batch.scope = m.scope)
    (⟨.rejectedScope, [], "batch scope differs from memory scope"⟩ : Refusal)
  let source ← (CausalSourceEnvelope.sealed c batch.sourceId batch.content).mapError fun _ =>
    (⟨.rejectedAdapter, [], "causal source needs identity and content"⟩ : Refusal)
  match m.refuse c source proposed with
  | some refusal => .error refusal
  | none =>
    require (m.novel proposed ≠ [])
      (⟨.idempotent, proposed.map fun f => f.factId, "identical batch already committed"⟩ : Refusal)
    require (m.missing proposed = [])
      (⟨.rejectedCausal, m.missing proposed, "causal edge references an unknown FactId"⟩ : Refusal)
    return source

/-- `StandaloneCausalMemory.ingest` behind an adapter whose facts are already compiled. -/
def ingest {δ : Type} (m : StandaloneCausalMemory) (batch : CausalAdapterBatch δ)
    (proposed : List TypedCausalFact) : Except PyError (Refusal × StandaloneCausalMemory) :=
  match m.screen c batch proposed with
  | .error outcome => .ok (outcome, m)
  | .ok source => do
    let m' ← m.commit source proposed
    return (⟨.applied, (m.novel proposed).map fun f => f.factId,
      "batch atomically committed and query index published"⟩, m')

/-- `StandaloneCausalMemory.query`. -/
def query (sumDecimals : List String → Option String) (m : StandaloneCausalMemory)
    (program : TypedCausalProgram) : TypedCausalResult :=
  match m.executor with
  | none => .abstain "empty_causal_memory"
  | some executor =>
    let result := executor.execute sumDecimals program
    let reopens (proof : TypedCausalProof) : Bool :=
      match executor.byId proof.factId, m.sources.get proof.sourceId with
      | some fact, some source => verifyMicrocitation c fact source
      | _, _ => false
    if result.proofs.all reopens then result
    else
      { TypedCausalResult.abstain "published_proof_failed_revalidation" with
        examinedFactIds := result.examinedFactIds }

end StandaloneCausalMemory

/-- `SidecarLimits`. -/
structure SidecarLimits where
  maxAuthorities : Nat
  maxSourceBytes : Nat
  maxFactsPerBatch : Nat
  maxCompletenessClaimsPerBatch : Nat
  deriving DecidableEq, Repr

def SidecarLimits.default : SidecarLimits := ⟨1024, 16 * 1024 * 1024, 100000, 10000⟩

/-- `AuthorizedSidecarMemory`. -/
structure AuthorizedSidecarMemory where
  scope : String
  purpose : String
  authorities : List SidecarAuthority
  limits : SidecarLimits
  memory : StandaloneCausalMemory
  deferPublication : Bool
  attestations : Dict Nat AttestedSidecarFact
  sources : Dict String CausalSourceEnvelope
  completeness : Dict Key AttestedCompletenessClaim
  supersededBy : Dict Nat Nat
  factsByKey : Dict Key (Dict Nat AttestedSidecarFact)
  deriving DecidableEq

/-- `CompletenessCertificate`. -/
structure CompletenessCertificate where
  scope : String
  subject : String
  predicate : String
  factIds : List Nat
  factAttestationsSha256 : String
  claimAttestationSha256 : String
  evaluatedAt : Option Int
  certificateSha256 : String
  deriving DecidableEq, Repr

def keyBefore (a b : Key) : Prop := a.1 < b.1 ∨ (a.1 = b.1 ∧ a.2 < b.2)

instance (a b : Key) : Decidable (keyBefore a b) := inferInstanceAs (Decidable (_ ∨ _))

namespace AuthorizedSidecarMemory

variable (c : Crypto)

/-- `AuthorizedSidecarMemory.__init__`. -/
def make (scope : String) (authorities : List SidecarAuthority) (limits : SidecarLimits)
    (deferPublication : Bool) : Except PyError AuthorizedSidecarMemory := do
  require (authorities ≠ [])
    (PyError.valueError "authorized sidecar memory needs at least one authority")
  require (authorities.length ≤ limits.maxAuthorities)
    (PyError.valueError "sidecar authority registry exceeds resource limit")
  require (∀ a ∈ authorities, scope ∈ a.allowedScopes)
    (PyError.valueError "every authority must explicitly permit the memory scope")
  require (authorities.map fun a => a.adapterId).Nodup
    (PyError.valueError "adapter ids must be unique in an authority registry")
  require (authorities.map fun a => a.sha256 c).Nodup
    (PyError.valueError "sidecar authorities must be unique")
  let purpose := (authorities.map fun a => a.purpose).headD ""
  require (∀ a ∈ authorities, a.purpose = purpose)
    (PyError.valueError "one sidecar memory boundary may serve exactly one purpose")
  return ⟨scope, purpose, authorities, limits, .new scope deferPublication, deferPublication,
    .empty, .empty, .empty, .empty, .empty⟩

theorem eq_of_make {c : Crypto} {scope : String} {authorities : List SidecarAuthority}
    {limits : SidecarLimits} {deferPublication : Bool} {m : AuthorizedSidecarMemory}
    (made : make c scope authorities limits deferPublication = .ok m) :
    m = ⟨scope, (authorities.map fun a => a.purpose).headD "", authorities, limits,
      .new scope deferPublication, deferPublication, .empty, .empty, .empty, .empty, .empty⟩ := by
  simp only [make, bind_eq_ok, require_eq_ok, pure_eq_ok] at made
  obtain ⟨-, -, -, -, -, -, -, -, -, -, -, -, rfl⟩ := made
  rfl

/-- `_fork_for_atomic_update`. -/
def fork (m : AuthorizedSidecarMemory) : AuthorizedSidecarMemory :=
  { m with memory := m.memory.fork, deferPublication := false }

/-- `_finalize_publication`. -/
def finalizePublication (m : AuthorizedSidecarMemory) : Except PyError AuthorizedSidecarMemory :=
  if m.deferPublication then do
    let memory ← m.memory.finalizePublication
    return { m with memory, deferPublication := false }
  else .ok m

variable (m : AuthorizedSidecarMemory)

/-- `_authorities.get(adapter_id)`. -/
def trusted (adapterId : String) : Option SidecarAuthority :=
  m.authorities.find? fun a => a.adapterId = adapterId

/-- `_facts_by_key.get(key, {})`. -/
def byKey (key : Key) : Dict Nat AttestedSidecarFact := (m.factsByKey.get key).getD .empty

def prospective (proposed : List AttestedSidecarFact) (key : Key) : Dict Nat AttestedSidecarFact :=
  (m.byKey key).update
    ((proposed.filter fun item => item.fact.key = key).map fun item => (item.fact.factId, item))

def factsOf (facts : Dict Nat AttestedSidecarFact) : List FactFields :=
  facts.items.map fun e => e.2.fact.toFactFields

def attested (item : AttestedSidecarFact) : Bool := m.attestations.get item.fact.factId = some item

def previous (fact : FactFields) : List Nat :=
  (((m.byKey fact.key).items.filter fun e =>
    e.2.fact.orbit = fact.orbit && (m.supersededBy.get e.1).isNone).map Prod.fst).insertionSort
      (· ≤ ·)

def lineage (item : AttestedSidecarFact) : Option String :=
  if m.attested item then none
  else if item.lifecycle.supersedes ≠ m.previous item.fact.toFactFields then
    some "update lineage must name the complete active orbit"
  else if (m.previous item.fact.toFactFields).any fun id =>
      (m.attestations.get id).any fun old => item.fact.version ≤ old.fact.version then
    some "updates require a strictly newer version"
  else none

/-- `pending_superseded`. -/
def pendingSuperseded (proposed : List AttestedSidecarFact) : List (Nat × Nat) :=
  proposed.flatMap fun item =>
    if m.attested item then []
    else (m.previous item.fact.toFactFields).map fun id => (id, item.fact.factId)

def admits (authority : SidecarAuthority) (source : CausalSourceEnvelope)
    (proposed : List AttestedSidecarFact) (claim : AttestedCompletenessClaim) : Bool :=
  claim.verify c authority source && claim.scope = m.scope &&
    selectedPopulation (factsOf (m.prospective proposed claim.key)) claim.subject claim.predicate =
      some claim.factIds

def refuse (authority : SidecarAuthority) (source : CausalSourceEnvelope)
    (compilation : SidecarCompilation) : Option Refusal :=
  let proposed := compilation.facts
  let claims := compilation.completenessClaims
  let conflicts := proposed.filter fun item =>
    (m.attestations.get item.fact.factId).any fun known => known ≠ item
  if m.limits.maxFactsPerBatch < proposed.length ∨
      m.limits.maxCompletenessClaimsPerBatch < claims.length then
    some ⟨.rejectedResourceLimit, [], "sidecar compilation exceeds configured limits"⟩
  else if proposed = [] ∧ claims = [] then
    some ⟨.rejectedAdapter, [], "sidecar output must contain facts or completeness claims"⟩
  else if ¬ Canonical (proposed.map fun item => item.fact.factId) then
    some ⟨.rejectedAdapter, [], "sidecar output must be non-empty and FactId-canonical"⟩
  else if ¬ ∀ item ∈ proposed, item.fact.scope = m.scope ∧ item.fact.sourceId = source.sourceId ∧
      item.fact.sourceSha256 = source.sha256 then
    some ⟨.rejectedAuthority, [], "sidecar cannot forge scope or source"⟩
  else if ¬ ∀ item ∈ proposed, authority.permits item.fact.toFactFields = true then
    some ⟨.rejectedCapability, [], "predicate or scope is not allowlisted"⟩
  else if ¬ ∀ item ∈ proposed, item.verify c authority source = true then
    some ⟨.rejectedAttestation, [], "fact attestation or microcitation failed"⟩
  else if conflicts ≠ [] then
    some ⟨.rejectedAttestationCollision, conflicts.map fun item => item.fact.factId,
      "FactId is already bound to another attestation"⟩
  else if ¬ (proposed.map fun item => (item.fact.key, item.fact.orbit)).Nodup then
    some ⟨.rejectedUpdate, [], "one atomic batch may update an event orbit only once"⟩
  else
    match proposed.findSome? m.lineage with
    | some reason => some ⟨.rejectedUpdate, [], reason⟩
    | none =>
      if ¬ (claims.map fun claim => claim.key).Pairwise keyBefore then
        some ⟨.rejectedCompleteness, [], "completeness claims must be typed, unique and canonical"⟩
      else if ¬ ∀ claim ∈ claims, m.admits c authority source proposed claim = true then
        some ⟨.rejectedCompleteness, [], "completeness claim does not equal current population"⟩
      else none

def record (source : CausalSourceEnvelope) (compilation : SidecarCompilation)
    (memory : StandaloneCausalMemory) : AuthorizedSidecarMemory :=
  let proposed := compilation.facts
  let claims := compilation.completenessClaims
  let touched := ((proposed.map fun item => item.fact.key) ++
    claims.map fun claim => claim.key).dedup
  { m with
    memory
    attestations := m.attestations.update (proposed.map fun item => (item.fact.factId, item))
    factsByKey := m.factsByKey.update (touched.map fun key => (key, m.prospective proposed key))
    sources := m.sources.set source.sourceId source
    completeness := m.completeness.update (claims.map fun claim => (claim.key, claim))
    supersededBy := m.supersededBy.update (m.pendingSuperseded proposed) }

def done (state : IngestState) (factIds : List Nat) : Refusal :=
  ⟨state, factIds, if state = .applied then "authorized sidecar batch atomically committed"
    else "identical authorized sidecar batch already committed"⟩

def publish {δ : Type} (source : CausalSourceEnvelope) (compilation : SidecarCompilation)
    (batch : CausalAdapterBatch δ) : Except PyError (Refusal × AuthorizedSidecarMemory) :=
  if compilation.facts ≠ [] then do
    let (core, memory) ← m.memory.ingest c batch (compilation.facts.map fun item => item.fact)
    if core.state = .applied ∨ core.state = .idempotent then
      return (done core.state core.factIds, m.record source compilation memory)
    else return (core, m)
  else if (m.sources.get source.sourceId).any fun known => known.sha256 ≠ source.sha256 then
    .ok (⟨.rejectedSourceCollision, [],
      "source identity is immutable across completeness batches"⟩, m)
  else
    let identical := compilation.completenessClaims ≠ [] ∧
      ∀ claim ∈ compilation.completenessClaims, m.completeness.get claim.key = some claim
    .ok (done (if identical then .idempotent else .applied) [],
      m.record source compilation m.memory)

def screen {δ : Type} (adapter : SidecarIngestAdapter δ) (batch : CausalAdapterBatch δ) :
    Except SidecarIngestReceipt (SidecarAuthority × CausalSourceEnvelope × SidecarCompilation) := do
  let sha := batch.sourceSha256 c
  require (batch.content.utf8ByteSize ≤ m.limits.maxSourceBytes)
    (⟨.rejectedResourceLimit, "", "", [], sha, "sidecar source exceeds configured byte limit"⟩ :
      SidecarIngestReceipt)
  let supplied ← orThrow adapter.authority
    ⟨.rejectedAdapter, "", "", [], sha, "adapter must implement sidecar protocol"⟩
  let reject (state : IngestState) (reason : String) : SidecarIngestReceipt :=
    ⟨state, supplied.adapterId, supplied.sha256 c, [], sha, reason⟩
  require (m.trusted supplied.adapterId = some supplied)
    (reject .rejectedAuthority "authority is absent or differs from registry")
  require (batch.scope = m.scope ∧ batch.scope ∈ supplied.allowedScopes)
    (reject .rejectedScope "batch scope is outside authority capability")
  let source ← (CausalSourceEnvelope.sealed c batch.sourceId batch.content).mapError fun _ =>
    reject .rejectedAdapter "causal source needs identity and content"
  let compilation ← (adapter.compileSidecar batch).mapError (reject .rejectedAdapter)
  return (supplied, source, compilation)

/-- `AuthorizedSidecarMemory.ingest`. -/
def ingest {δ : Type} (adapter : SidecarIngestAdapter δ) (batch : CausalAdapterBatch δ) :
    Except PyError (SidecarIngestReceipt × AuthorizedSidecarMemory) :=
  match m.screen c adapter batch with
  | .error receipt => .ok (receipt, m)
  | .ok (authority, source, compilation) =>
    let report (r : Refusal) : SidecarIngestReceipt :=
      ⟨r.state, authority.adapterId, authority.sha256 c, r.factIds, source.sha256, r.reason⟩
    match m.refuse c authority source compilation with
    | some refusal => .ok (report refusal, m)
    | none => do
      let (outcome, m') ← m.publish c source compilation batch
      return (report outcome, m')

/-- `attested_facts`. -/
def attestedFacts : List AttestedSidecarFact := (m.attestations.sortedBy id).map Prod.snd

def authorityOf (sha256 : String) : Option SidecarAuthority :=
  m.authorities.find? fun a => a.sha256 c = sha256

/-- `verify_attestation`. -/
def verifyAttestation (factId : Nat) : Bool :=
  match m.attestations.get factId with
  | none => false
  | some item =>
    match m.authorityOf c item.authoritySha256, m.sources.get item.fact.sourceId with
    | some authority, some source => item.verify c authority source
    | _, _ => false

/-- `_selected_population` of the facts a key holds. -/
def population (subject predicate : String) : Option (List Nat) :=
  selectedPopulation (factsOf (m.byKey (subject, predicate))) subject predicate

def readable (items : List AttestedSidecarFact) (asOf : Option Int) : Bool :=
  match asOf with
  | none => items.all fun item => item.lifecycle.validUntil.isNone
  | some instant => items.all fun item => item.lifecycle.isValidAt instant

def certificate (claim : AttestedCompletenessClaim) (subject predicate : String)
    (items : List AttestedSidecarFact) (asOf : Option Int) : CompletenessCertificate :=
  let populationDigest := digest c "HORIZON-SIDECAR-POPULATION-v1"
    (.arr (items.map fun item => .str item.attestationSha256))
  ⟨m.scope, subject, predicate, claim.factIds, populationDigest, claim.attestationSha256, asOf,
    digest c "HORIZON-SIDECAR-CERTIFICATE-v1" (.obj [
      ("claim_attestation_sha256", .str claim.attestationSha256),
      ("evaluated_at", optional .int asOf),
      ("fact_attestations_sha256", .str populationDigest),
      ("fact_ids", .arr (claim.factIds.map fun id : Nat => .int id)),
      ("predicate", .str predicate),
      ("scope", .str m.scope),
      ("subject", .str subject)])⟩

/-- `completeness_certificate`. -/
def completenessCertificate (subject predicate : String) (asOf : Option Int) :
    Option CompletenessCertificate :=
  match m.completeness.get (subject, predicate) with
  | none => none
  | some claim =>
    let items := claim.factIds.filterMap m.attestations.get
    if m.population subject predicate = some claim.factIds ∧ readable items asOf = true then
      some (m.certificate c claim subject predicate items asOf)
    else none

def objection (asOf : Option Int) (proof : TypedCausalProof) : Option String :=
  match m.attestations.get proof.factId with
  | none => some "sidecar_attestation_failed_revalidation"
  | some item =>
    let valid :=
      match m.authorityOf c item.authoritySha256, m.sources.get proof.sourceId with
      | some authority, some source => item.verify c authority source
      | _, _ => false
    if valid = false then some "sidecar_attestation_failed_revalidation"
    else if item.lifecycle.purpose ≠ m.purpose then some "sidecar_purpose_boundary_violation"
    else
      match asOf with
      | none =>
        if item.lifecycle.validUntil.isSome then some "sidecar_evaluation_time_required" else none
      | some instant =>
        if item.lifecycle.isValidAt instant then none
        else if instant < item.lifecycle.validFrom then some "sidecar_fact_not_yet_valid"
        else some "sidecar_fact_expired"

/-- `_query_verified`. -/
def queryVerified (sumDecimals : List String → Option String) (program : TypedCausalProgram)
    (asOf : Option Int) : TypedCausalResult :=
  let result := m.memory.query c sumDecimals program
  match result.proofs.findSome? (m.objection c asOf) with
  | none => result
  | some reason =>
    { TypedCausalResult.abstain reason with examinedFactIds := result.examinedFactIds }

def beforeTime (asOf : Option Int) : Bool := asOf.any fun instant => instant < 0

/-- `query`. -/
def query (sumDecimals : List String → Option String) (program : TypedCausalProgram)
    (asOf : Option Int) : TypedCausalResult :=
  if beforeTime asOf then .unsupported "invalid_sidecar_evaluation_time"
  else if program.operator = .countDistinct ∨ program.operator = .sum then
    .unsupported "sidecar_completeness_certificate_required"
  else m.queryVerified c sumDecimals program asOf

/-- `query_certified`. -/
def queryCertified (sumDecimals : List String → Option String) (program : TypedCausalProgram)
    (certificate : CompletenessCertificate) (asOf : Option Int) : TypedCausalResult :=
  if beforeTime asOf then .unsupported "invalid_sidecar_evaluation_time"
  else if ¬ (program.operator = .countDistinct ∨ program.operator = .sum) then
    .unsupported "certificate_only_applies_to_aggregation"
  else if program.atTime.isSome then .unsupported "historical_completeness_not_certified"
  else if m.completenessCertificate c program.selector.subject program.selector.predicate asOf ≠
      some certificate then
    .abstain "invalid_or_stale_completeness_certificate"
  else if program.operator = .countDistinct ∧ certificate.factIds = [] then
    .resolved "0" "count" [] "certified_empty_distinct_count"
  else m.queryVerified c sumDecimals { program with closedWorld := true } asOf

/-- `fact_count`. -/
def factCount : Nat := m.memory.facts.keys.length

end AuthorizedSidecarMemory

end ProofRay.Sidecar
