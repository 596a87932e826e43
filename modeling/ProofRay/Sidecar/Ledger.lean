/- The durable sidecar: a hash-chained ledger of batches, the memory its replay gives, and the
   calls that change it. -/

import ProofRay.Sidecar.Wire

namespace ProofRay.Sidecar

open Engine (Bytes Crypto PyError)
open Lib.Guard

/-- `_GENESIS`. -/
def genesis : String := String.ofList (List.replicate 64 '0')

/-- `ledger_head_sha256`. -/
def ledgerHead (records : List SidecarRecord) : String :=
  (records.getLast?.map fun r => r.recordSha256).getD genesis

def readRecords (c : Crypto) : Nat → String → List Bytes → Except PyError (List SidecarRecord)
  | _, _, [] => .ok []
  | sequence, previous, raw :: lines => do
    let r ← SidecarRecord.read c sequence previous raw
    let rs ← readRecords c (sequence + 1) r.recordSha256 lines
    return r :: rs

/-- What every call of one ledger shares: its scope and its authority registry. -/
structure Registry where
  scope : String
  authorities : List SidecarAuthority

namespace Registry

variable (c : Crypto) (g : Registry)

/-- `_authorities.get(adapter_id)`. -/
def get (adapterId : String) : Option SidecarAuthority :=
  g.authorities.find? fun a => a.adapterId = adapterId

/-- `_decode_record`. -/
def decodeRecord (r : SidecarRecord) :
    Except PyError (SidecarAuthority × SidecarCompilation × CausalAdapterBatch Unit) := do
  let differs := PyError.valueError "durable sidecar authority registry differs from ledger"
  let authority ← orThrow (g.get r.adapterId) differs
  require (r.scope = g.scope ∧ r.authoritySha256 = authority.sha256 c) differs
  let batch : CausalAdapterBatch Unit := ⟨r.sourceId, r.content, g.scope, []⟩
  require (r.sourceSha256 = batch.sourceSha256 c)
    (PyError.valueError "durable sidecar source digest mismatch")
  return (authority, ⟨r.facts, r.completenessClaims⟩, batch)

def ingestRecord (m : AuthorizedSidecarMemory) (r : SidecarRecord) :
    Except PyError (SidecarIngestReceipt × AuthorizedSidecarMemory) := do
  let (authority, compilation, batch) ← g.decodeRecord c r
  m.ingest c (replayAdapter Unit authority compilation) batch

/-- One turn of the loop of `_recover`. -/
def replayRecord (s : AuthorizedSidecarMemory × Option SidecarIngestReceipt) (r : SidecarRecord) :
    Except PyError (AuthorizedSidecarMemory × Option SidecarIngestReceipt) := do
  let (receipt, m) ← g.ingestRecord c s.1 r
  require (receipt.state = .applied ∨ receipt.state = .idempotent)
    (PyError.valueError "durable sidecar replay failed")
  return (m, some receipt)

/-- `_recover`. -/
def recover (records : List SidecarRecord) :
    Except PyError (AuthorizedSidecarMemory × Option SidecarIngestReceipt) := do
  let m ← AuthorizedSidecarMemory.make c g.scope g.authorities .default true
  let (m, last) ← records.foldlM (g.replayRecord c) (m, none)
  let m ← m.finalizePublication
  return (m, last)

end Registry

def joinLines : List String → List Char
  | [] => []
  | [v] => v.toList
  | v :: w :: rest => v.toList ++ '\n' :: joinLines (w :: rest)

def layout : Nat → List AttestedSidecarFact → List (AttestedSidecarFact × Nat × Nat)
  | _, [] => []
  | offset, item :: rest =>
    let stop := offset + item.fact.value.toList.length
    (item, offset, stop) :: layout (stop + 1) rest

/-- `key=lambda item: (item.fact.source_span[0], item.fact.fact_id)`. -/
def bySpan (a b : AttestedSidecarFact) : Prop :=
  a.fact.sourceSpan.1 < b.fact.sourceSpan.1 ∨
    (a.fact.sourceSpan.1 = b.fact.sourceSpan.1 ∧ a.fact.factId ≤ b.fact.factId)

instance : DecidableRel bySpan := fun _ _ => inferInstanceAs (Decidable (_ ∨ _))

def reseal (c : Crypto) (authority : SidecarAuthority) (source : CausalSourceEnvelope)
    (place : AttestedSidecarFact × Nat × Nat) : Except PyError AttestedSidecarFact := do
  let (item, span) := place
  let fact ← TypedCausalFact.make
    { item.fact.toFactFields with sourceSha256 := source.sha256, sourceSpan := span }
  AttestedSidecarFact.sealed c fact authority item.lifecycle item.routeMetadata

/-- `_redact_partial_record`. -/
def redactPartialRecord (c : Crypto) (g : Registry) (r : SidecarRecord)
    (facts : List AttestedSidecarFact) (claims : List AttestedCompletenessClaim) :
    Except PyError SidecarRecord := do
  let authority ← orThrow (g.get r.adapterId)
    (PyError.valueError "partial sidecar purge lost its authority manifest")
  let original ← CausalSourceEnvelope.sealed c r.sourceId r.content
  require (∀ item ∈ facts, item.verify c authority original = true)
    (PyError.valueError "partial sidecar purge cannot reopen retained microcitations")
  let ordered := facts.insertionSort bySpan
  let content := String.ofList (joinLines (ordered.map fun item => item.fact.value))
  let source ← CausalSourceEnvelope.sealed c r.sourceId content
  let resealed ← (layout 0 ordered).mapM (reseal c authority source)
  let claims ← claims.mapM fun claim => AttestedCompletenessClaim.sealForScope c authority source
    claim.scope claim.subject claim.predicate claim.factIds
  return { r with
    content
    sourceSha256 := source.sha256
    facts := resealed.insertionSort fun a b => a.fact.factId ≤ b.fact.factId
    completenessClaims := claims }

/-- `_rechain`, from a place in the chain on. -/
def rechain (c : Crypto) : Nat → String → List SidecarRecord → List SidecarRecord
  | _, _, [] => []
  | sequence, previous, r :: rs =>
    let r' := ({ r with sequence, previousSha256 := previous } : SidecarRecord).signed c
    r' :: rechain c (sequence + 1) r'.recordSha256 rs

namespace SidecarRecord

def factsWithout (selected : List Nat) (r : SidecarRecord) : List AttestedSidecarFact :=
  r.facts.filter fun item => item.fact.factId ∉ selected

/-- The claims that stay: those that touch no fact that goes, unless every fact goes. -/
def claimsWithout (selected : List Nat) (r : SidecarRecord) : List AttestedCompletenessClaim :=
  if r.facts ≠ [] ∧ r.factsWithout selected = [] then []
  else r.completenessClaims.filter fun claim => ∀ id ∈ claim.factIds, id ∉ selected

/-- What becomes of one record when some FactIds go: nothing, a redaction, or itself. -/
def without (c : Crypto) (g : Registry) (selected : List Nat) (r : SidecarRecord) :
    Except PyError (Option SidecarRecord) :=
  let facts := r.factsWithout selected
  let claims := r.claimsWithout selected
  if facts = [] ∧ claims = [] then .ok none
  else if facts.length ≠ r.facts.length then (redactPartialRecord c g r facts claims).map some
  else .ok (some { r with completenessClaims := claims })

end SidecarRecord

/-- `_records_without_fact_ids`. -/
def recordsWithoutFactIds (c : Crypto) (g : Registry) (selected : List Nat)
    (records : List SidecarRecord) : Except PyError (List SidecarRecord) := do
  let kept ← records.mapM (SidecarRecord.without c g selected)
  return rechain c 1 genesis (kept.filterMap id)

def observedIntents (known : List AttestedSidecarFact) : List SidecarObservedIntent :=
  known.flatMap fun item => (item.routeMetadata.map fun m => m.observedIntents).getD []

def closeIntent (selected : List Nat) (intent : SidecarObservedIntent) : List Nat :=
  if (∃ id ∈ intent.factIds, id ∈ selected) ∧ ¬ ∀ id ∈ intent.factIds, id ∈ selected then
    selected ++ intent.factIds.filter fun id => id ∉ selected
  else selected

/-- The passes of `while changed`, each over every intent. -/
def closeFibers (intents : List SidecarObservedIntent) : Nat → List Nat → List Nat
  | 0, selected => selected
  | fuel + 1, selected =>
    let next := intents.foldl closeIntent selected
    if next = selected then selected else closeFibers intents fuel next

def purgeSelection (known : List AttestedSidecarFact) (factIds : List Nat) : List Nat :=
  let ids := known.map fun item => item.fact.factId
  let intents := observedIntents known
  closeFibers intents (intents.length + 1) (factIds.filter fun id => id ∈ ids)

inductive DeleteState where
  | purged
  | rejectedNotFound
  | rejectedCausal
  | rejectedDurability
  deriving DecidableEq, Repr

/-- `CausalDeleteReceipt`. -/
structure CausalDeleteReceipt where
  state : DeleteState
  sourceId : String
  removedFactIds : List Nat
  previousHeadSha256 : String
  newHeadSha256 : String
  reason : String
  deriving DecidableEq, Repr

/-- `DurableAuthorizedSidecarMemory`, beside its record store. -/
structure DurableAuthorizedSidecarMemory where
  registry : Registry
  records : List SidecarRecord
  recordBytes : List Bytes
  memory : AuthorizedSidecarMemory

/-- A durable memory and what its record store holds. -/
structure Host where
  durable : DurableAuthorizedSidecarMemory
  store : List Bytes

def messageOf : PyError → String
  | .valueError message => message
  | .walError message => message
  | .integrityError message => message
  | .incompatibleError message => message
  | .artifactError message => message
  | .structError => ""
  | .attributeError => ""

namespace DurableAuthorizedSidecarMemory

variable (c : Crypto)

/-- `DurableAuthorizedSidecarMemory.__init__` over what a record store holds. -/
def openStore (g : Registry) (store : List Bytes) :
    Except PyError DurableAuthorizedSidecarMemory := do
  require (g.scope ≠ "" ∧ g.authorities ≠ [] ∧ (g.authorities.map fun a => a.adapterId).Nodup)
    (PyError.valueError "durable sidecar needs scope, unique authorities and a record store")
  let records ← readRecords c 1 genesis store
  let (memory, _) ← g.recover c records
  return ⟨g, records, records.map SidecarRecord.bytes, memory⟩

variable (d : DurableAuthorizedSidecarMemory)

def newRecord {δ : Type} (after : List SidecarRecord) (authority : SidecarAuthority)
    (batch : CausalAdapterBatch δ) (compilation : SidecarCompilation) : SidecarRecord :=
  ({ sequence := after.length + 1
     previousSha256 := ledgerHead after
     scope := d.registry.scope
     adapterId := authority.adapterId
     authoritySha256 := authority.sha256 c
     sourceId := batch.sourceId
     content := batch.content
     sourceSha256 := batch.sourceSha256 c
     facts := compilation.facts
     completenessClaims := compilation.completenessClaims
     recordSha256 := "" } : SidecarRecord).signed c

def moved (records : List SidecarRecord) (bytes : List Bytes) (memory : AuthorizedSidecarMemory) :
    DurableAuthorizedSidecarMemory :=
  ⟨d.registry, records, bytes, memory⟩

section Writing

variable {δ : Type} (adapter : SidecarIngestAdapter δ) (batch : CausalAdapterBatch δ)

def reject (authority : SidecarAuthority) (state : IngestState) (reason : String) :
    SidecarIngestReceipt :=
  ⟨state, authority.adapterId, authority.sha256 c, [], batch.sourceSha256 c, reason⟩

/-- `ingest` up to its commit: what it answers without one, or the receipt and the memory that
are to be committed. -/
def stageIngest : Except SidecarIngestReceipt
    (SidecarAuthority × SidecarIngestReceipt × DurableAuthorizedSidecarMemory) := do
  let supplied ← orThrow adapter.authority
    ⟨.rejectedAdapter, "", "", [], batch.sourceSha256 c, "missing sidecar authority"⟩
  let reject := reject c batch supplied
  require (d.registry.get supplied.adapterId = some supplied)
    (reject .rejectedAuthority "authority is absent or differs from durable registry")
  let compilation ← (adapter.compileSidecar batch).mapError (reject .rejectedAdapter)
  let durability (e : PyError) : SidecarIngestReceipt := reject .rejectedDurability (messageOf e)
  let persisted ← (SidecarRecord.reload c
    (d.newRecord c d.records supplied batch compilation)).mapError durability
  let (receipt, staged) ← (d.registry.ingestRecord c d.memory.fork persisted).mapError durability
  require (receipt.state = .applied) receipt
  return (supplied, receipt, d.moved (d.records ++ [persisted])
    (d.recordBytes ++ [persisted.bytes]) staged)

/-- `replace_fact_ids` up to its commit. -/
def stageReplace (remove : List Nat) : Except (Except PyError SidecarIngestReceipt)
    (SidecarAuthority × SidecarIngestReceipt × DurableAuthorizedSidecarMemory) := do
  require (remove ≠ [] ∧ Canonical remove)
    (.error (PyError.valueError "sidecar replacement needs canonical FactIds"))
  let supplied ← orThrow adapter.authority
    (.ok ⟨.rejectedAuthority, "", "", [], batch.sourceSha256 c,
      "authority is absent or differs from durable registry"⟩)
  let reject (state : IngestState) (reason : String) : Except PyError SidecarIngestReceipt :=
    .ok (reject c batch supplied state reason)
  require (d.registry.get supplied.adapterId = some supplied)
    (reject .rejectedAuthority "authority is absent or differs from durable registry")
  require (∀ id ∈ remove, id ∈ d.memory.attestedFacts.map fun item => item.fact.factId)
    (reject .rejectedUpdate "replacement FactIds are absent from the active field")
  let compilation ← (adapter.compileSidecar batch).mapError (reject .rejectedAdapter)
  let retained ← (recordsWithoutFactIds c d.registry remove d.records).mapError .error
  let durability (e : PyError) : Except PyError SidecarIngestReceipt :=
    reject .rejectedDurability (messageOf e)
  let (probe, _) ← (d.registry.recover c retained).mapError durability
  let (validated, _) ←
    (probe.ingest c (replayAdapter δ supplied compilation) batch).mapError durability
  require (validated.state = .applied) (.ok validated)
  let candidate := retained ++ [d.newRecord c retained supplied batch compilation]
  let (staged, last) ← (d.registry.recover c candidate).mapError durability
  let disagreed := reject .rejectedDurability
    "serialized replacement disagreed with staged publication"
  let receipt ← orThrow last disagreed
  require (receipt.state = .applied) disagreed
  return (supplied, receipt, d.moved candidate (candidate.map SidecarRecord.bytes) staged)

end Writing

/-- `purge_fact_ids` up to its commit. -/
def stagePurge (factIds : List Nat) (sourceId : String) :
    Except (Except PyError CausalDeleteReceipt)
      (CausalDeleteReceipt × DurableAuthorizedSidecarMemory) := do
  require (sourceId ≠ "" ∧ factIds ≠ [] ∧ Canonical factIds)
    (.error (PyError.valueError "sidecar purge needs canonical FactIds and source identity"))
  let head := ledgerHead d.records
  let selected := purgeSelection d.memory.attestedFacts factIds
  require (selected ≠ [])
    (.ok ⟨.rejectedNotFound, sourceId, [], head, head,
      "FactIds are absent from the active durable sidecar"⟩)
  let removed := selected.dedup.insertionSort (· ≤ ·)
  let candidate ← (recordsWithoutFactIds c d.registry selected d.records).mapError .error
  let (staged, _) ← (d.registry.recover c candidate).mapError fun e =>
    .ok ⟨.rejectedCausal, sourceId, removed, head, head,
      "remaining sidecar field failed revalidation: " ++ messageOf e⟩
  return (⟨.purged, sourceId, removed, head, ledgerHead candidate,
      "sidecar facts removed; remaining ledger rechained and revalidated"⟩,
    d.moved candidate (candidate.map SidecarRecord.bytes) staged)

end DurableAuthorizedSidecarMemory

namespace Host

variable (c : Crypto) (h : Host)

/-- `_write_records` and what follows it: the store takes the records and the memory moves, or the
store raises and nothing does. -/
def commit {ρ : Type} (failure : Option String) (next : DurableAuthorizedSidecarMemory)
    (done : ρ) (failed : String → ρ) : Except PyError ρ × Host :=
  match failure with
  | some error => (.ok (failed error), h)
  | none => (.ok done, ⟨next, next.recordBytes⟩)

/-- `ingest`. -/
def ingest {δ : Type} (failure : Option String) (adapter : SidecarIngestAdapter δ)
    (batch : CausalAdapterBatch δ) : Except PyError SidecarIngestReceipt × Host :=
  match h.durable.stageIngest c adapter batch with
  | .error receipt => (.ok receipt, h)
  | .ok (authority, receipt, next) =>
    h.commit failure next receipt fun error =>
      DurableAuthorizedSidecarMemory.reject c batch authority .rejectedDurability
        ("atomic sidecar commit failed: " ++ error)

/-- `replace_fact_ids`. -/
def replaceFactIds {δ : Type} (failure : Option String) (adapter : SidecarIngestAdapter δ)
    (batch : CausalAdapterBatch δ) (remove : List Nat) :
    Except PyError SidecarIngestReceipt × Host :=
  match h.durable.stageReplace c adapter batch remove with
  | .error outcome => (outcome, h)
  | .ok (authority, receipt, next) =>
    h.commit failure next receipt fun error =>
      DurableAuthorizedSidecarMemory.reject c batch authority .rejectedDurability
        ("atomic sidecar replacement failed: " ++ error)

/-- `purge_fact_ids`. -/
def purgeFactIds (failure : Option String) (factIds : List Nat) (sourceId : String) :
    Except PyError CausalDeleteReceipt × Host :=
  match h.durable.stagePurge c factIds sourceId with
  | .error outcome => (outcome, h)
  | .ok (receipt, next) =>
    h.commit failure next receipt fun error =>
      { receipt with
        state := .rejectedDurability
        newHeadSha256 := receipt.previousHeadSha256
        reason := "atomic sidecar purge failed: " ++ error }

end Host

end ProofRay.Sidecar
