/- Open text: the documents a host remembers and the intents observed on them, declared to the
   sidecar and read back. -/

import ProofRay.Sidecar.Ledger

namespace ProofRay.OpenText

open Engine (Crypto PyError)
open Lib (Dict)
open Lib.Guard
open Sidecar

/-- What a call of an open-text memory raises: an error of the layers below, or its own. -/
inductive OpenTextError where
  | raised (error : PyError)
  | runtimeError (message : String)
  deriving DecidableEq, Repr

def valueError (message : String) : OpenTextError := .raised (.valueError message)

/-- A constructor that raises `ValueError` where its check fails. -/
def checked {α : Type} (P : Prop) [Decidable P] (build : P → α) (message : String) :
    Except PyError α :=
  if holds : P then .ok (build holds) else .error (.valueError message)

theorem checked_eq_ok {α : Type} {P : Prop} [Decidable P] {build : P → α} {message : String}
    {a : α} : checked P build message = .ok a ↔ ∃ holds : P, build holds = a := by
  unfold checked
  split
  · rename_i holds
    exact ⟨fun h => ⟨holds, Except.ok.inj h⟩, fun ⟨_, h⟩ => congrArg Except.ok h⟩
  · rename_i fails
    exact ⟨fun h => (by cases h), fun ⟨holds, _⟩ => absurd holds fails⟩

/-- `SafetyPolicy`. -/
structure SafetyPolicy where
  checkPhysicalHarm : Bool
  checkMalware : Bool
  checkSensitivePii : Bool
  deriving DecidableEq, Repr

structure DocumentFields where
  factId : Nat
  text : String
  scopeId : Nat
  sessionId : String
  version : Nat
  source : String
  generationId : Option Nat
  sequence : Option Nat
  span : Option (Nat × Nat)
  role : Option Role
  eventTime : Option Nat
  safetyPolicy : Option SafetyPolicy
  speaker : Option String
  deriving DecidableEq, Repr

/-- `RouteDocument.__post_init__`, but for the screening of the text where a policy asks for it. -/
def DocumentFields.Checked (d : DocumentFields) : Prop :=
  (d.factId < 2 ^ 62 ∧ d.scopeId < 2 ^ 32 ∧ 1 ≤ d.version ∧ d.version < 2 ^ 32) ∧
  (blank d.text = false ∧ d.sessionId ≠ "" ∧ d.source ≠ "") ∧
  (∀ s ∈ d.span, s.1 < s.2) ∧ (∀ name ∈ d.speaker, blank name = false)

instance (d : DocumentFields) : Decidable d.Checked := by
  unfold DocumentFields.Checked
  infer_instance

/-- `RouteDocument`. -/
structure RouteDocument extends DocumentFields where
  checked : toDocumentFields.Checked
  deriving DecidableEq

/-- `RouteDocument(..)` without a policy. -/
def RouteDocument.make (d : DocumentFields) : Except PyError RouteDocument := do
  require (d.factId < 2 ^ 62 ∧ d.scopeId < 2 ^ 32 ∧ 1 ≤ d.version ∧ d.version < 2 ^ 32)
    (PyError.valueError "invalid fact identity")
  require (blank d.text = false ∧ d.sessionId ≠ "" ∧ d.source ≠ "")
    (PyError.valueError "text, session_id and source are required")
  require (∀ s ∈ d.span, s.1 < s.2) (PyError.valueError "span must be a non-empty integer interval")
  OpenText.checked d.Checked (fun checked => ⟨d, checked⟩)
    "speaker must be non-empty text when supplied"

theorem RouteDocument.make_eq_ok {d : DocumentFields} {document : RouteDocument} :
    RouteDocument.make d = .ok document ↔ document.toDocumentFields = d := by
  simp only [make, bind_eq_ok, require_eq_ok, checked_eq_ok]
  constructor
  · rintro ⟨-, -, -, -, -, -, -, rfl⟩
    rfl
  · rintro rfl
    have fits := document.checked
    exact ⟨(), fits.1, (), fits.2.1, (), fits.2.2.1, fits, rfl⟩

theorem RouteDocument.ext {a b : RouteDocument} (same : a.toDocumentFields = b.toDocumentFields) :
    a = b := by
  obtain ⟨a, fits⟩ := a
  obtain ⟨b, fits'⟩ := b
  simp only [RouteDocument.mk.injEq]
  exact same

structure ContextFields where
  intentId : String
  text : String
  factIds : List Nat
  turnIndex : Option Nat
  sessionId : Option String
  deriving DecidableEq, Repr

/-- `AnswerContextIntent.__post_init__`. -/
def ContextFields.Checked (i : ContextFields) : Prop :=
  blank i.intentId = false ∧ blank i.text = false ∧ i.factIds ≠ [] ∧ Canonical i.factIds ∧
    ∀ s ∈ i.sessionId, blank s = false

instance (i : ContextFields) : Decidable i.Checked := by
  unfold ContextFields.Checked
  infer_instance

/-- `AnswerContextIntent`. -/
structure AnswerContextIntent extends ContextFields where
  checked : toContextFields.Checked
  deriving DecidableEq

/-- `AnswerContextIntent(..)` of what an observed intent says. -/
def answerIntent (i : SidecarObservedIntent) : Except PyError AnswerContextIntent :=
  let fields : ContextFields := ⟨i.intentId, i.text, i.factIds, i.turnIndex, i.sessionId⟩
  checked fields.Checked (fun checked => ⟨fields, checked⟩)
    "answer context intent must be non-empty and FactId-canonical"

def observe (order : Nat) (i : AnswerContextIntent) : SidecarObservedIntent where
  intentId := i.intentId
  text := i.text
  factIds := i.factIds
  insertionOrder := order
  turnIndex := i.turnIndex
  sessionId := i.sessionId
  checked := by
    obtain ⟨name, text, some_fact, canonical, session⟩ := i.checked
    refine ⟨?_, ?_, some_fact, canonical, ?_⟩
    · rintro (empty : i.intentId = "")
      rw [empty] at name
      cases name
    · rintro (empty : i.text = "")
      rw [empty] at text
      cases text
    · intro empty
      cases session "" empty

@[simp] theorem answerIntent_observe (order : Nat) (i : AnswerContextIntent) :
    answerIntent (observe order i) = .ok i :=
  checked_eq_ok.mpr ⟨i.checked, rfl⟩

def sessionsOf (documents : List RouteDocument) (factIds : List Nat) : List String :=
  ((documents.filter fun d => d.factId ∈ factIds).map fun d => d.sessionId).dedup

def OneSession (documents : List RouteDocument) (factIds : List Nat) (sessionId : Option String) :
    Prop :=
  (sessionsOf documents factIds).length = 1 ∧ ∀ s ∈ sessionId, sessionsOf documents factIds = [s]

instance (documents : List RouteDocument) (factIds : List Nat) (sessionId : Option String) :
    Decidable (OneSession documents factIds sessionId) :=
  inferInstanceAs (Decidable (_ ∧ _))

/-- `StructuredCausalDeclaration`. -/
structure StructuredCausalDeclaration where
  factId : Nat
  scope : String
  subject : String
  predicate : String
  value : String
  sourceSpan : Nat × Nat
  observedAt : Nat
  eventTime : Nat
  version : Nat
  unit : String
  polarity : Int
  asserted : Bool
  eventId : String
  causes : List Nat

/-- `DeterministicCausalCompiler.compile`. -/
def compileDeclaration (c : Crypto) (source : CausalSourceEnvelope)
    (d : StructuredCausalDeclaration) : Except PyError TypedCausalFact := do
  require (source.verify c = true) (PyError.valueError "causal source digest mismatch")
  require (d.sourceSpan.1 < d.sourceSpan.2 ∧ d.sourceSpan.2 ≤ source.content.toList.length)
    (PyError.valueError "causal source span is outside the sealed source")
  require (slice source.content d.sourceSpan.1 d.sourceSpan.2 = d.value)
    (PyError.valueError "causal declaration value must equal its exact microcitation")
  TypedCausalFact.make
    { factId := d.factId
      scope := d.scope
      subject := d.subject
      predicate := d.predicate
      value := d.value
      observedAt := d.observedAt
      eventTime := d.eventTime
      version := d.version
      unit := d.unit
      polarity := d.polarity
      asserted := d.asserted
      eventId := d.eventId
      causes := d.causes
      sourceId := source.sourceId
      sourceSha256 := source.sha256
      sourceSpan := d.sourceSpan }

/-- What the declarative sidecar accepts: `SidecarFactDeclaration`, a bare
`StructuredCausalDeclaration`, and `SidecarCompletenessDeclaration`. -/
inductive SidecarDeclaration where
  | fact (declaration : StructuredCausalDeclaration) (lifecycle : Option SidecarLifecycle)
      (routeMetadata : Option SidecarRouteMetadata)
  | structured (declaration : StructuredCausalDeclaration)
  | completeness (subject predicate : String) (factIds : List Nat)

/-- `AttestedSidecarFact.seal`: a lifecycle that is not given is the authority's own. -/
def sealFact (c : Crypto) (authority : SidecarAuthority) (fact : TypedCausalFact)
    (lifecycle : Option SidecarLifecycle) (metadata : Option SidecarRouteMetadata) :
    Except PyError AttestedSidecarFact := do
  let own : LifecycleFields :=
    ⟨fact.observedAt, none, authority.purpose, "authority-manifest:" ++ authority.sha256 c, []⟩
  let lifecycle ← match lifecycle with
    | some given => .ok given
    | none => checked own.Checked (fun checked => ⟨own, checked⟩) "invalid sidecar lifecycle policy"
  AttestedSidecarFact.sealed c fact authority lifecycle metadata

def compileFact (c : Crypto) (authority : SidecarAuthority) (source : CausalSourceEnvelope) :
    SidecarDeclaration → Except PyError (Option AttestedSidecarFact)
  | .fact declaration lifecycle metadata => do
    let fact ← compileDeclaration c source declaration
    let item ← sealFact c authority fact lifecycle metadata
    return some item
  | .structured declaration => do
    let fact ← compileDeclaration c source declaration
    let item ← sealFact c authority fact none none
    return some item
  | .completeness _ _ _ => .ok none

def compileClaim (c : Crypto) (authority : SidecarAuthority) (source : CausalSourceEnvelope)
    (scope : String) : SidecarDeclaration → Except PyError (Option AttestedCompletenessClaim)
  | .completeness subject predicate factIds =>
    (AttestedCompletenessClaim.sealForScope c authority source scope subject predicate
      factIds).map some
  | _ => .ok none

/-- `DeclarativeSidecarAdapter.compile_sidecar`. -/
def compileSidecar (c : Crypto) (authority : SidecarAuthority)
    (batch : CausalAdapterBatch SidecarDeclaration) : Except PyError SidecarCompilation := do
  let source ← CausalSourceEnvelope.sealed c batch.sourceId batch.content
  let facts ← batch.declarations.mapM (compileFact c authority source)
  let claims ← batch.declarations.mapM (compileClaim c authority source batch.scope)
  return ⟨(facts.filterMap id).insertionSort fun a b => a.fact.factId ≤ b.fact.factId,
    claims.filterMap id⟩

/-- `DeclarativeSidecarAdapter`. -/
def declarativeAdapter (c : Crypto) (authority : SidecarAuthority) :
    SidecarIngestAdapter SidecarDeclaration :=
  ⟨some authority, fun batch => (compileSidecar c authority batch).mapError messageOf⟩

def places : Nat → List RouteDocument → List (RouteDocument × Nat × Nat)
  | _, [] => []
  | offset, d :: rest =>
    let stop := offset + d.text.toList.length
    (d, offset, stop) :: places (stop + 1) rest

def contentOf (documents : List RouteDocument) : String :=
  String.ofList (joinLines (documents.map fun d => d.text))

def clockOf (d : RouteDocument) : Nat := d.sequence.getD d.factId

def structuredDocument (scope : String) (place : RouteDocument × Nat × Nat) :
    StructuredCausalDeclaration :=
  let d := place.1
  { factId := d.factId
    scope
    subject := d.source
    predicate := "surface_document"
    value := d.text
    sourceSpan := place.2
    observedAt := clockOf d
    eventTime := d.eventTime.getD (clockOf d)
    version := d.version
    unit := ""
    polarity := 1
    asserted := true
    eventId := d.source ++ ":surface-document:" ++ toString d.factId
    causes := [] }

def routeFields (d : RouteDocument) (intents : List SidecarObservedIntent) : RouteFields where
  scopeId := d.scopeId
  sessionId := d.sessionId
  version := d.version
  generationId := d.generationId
  sequence := d.sequence
  eventTime := d.eventTime
  role := d.role
  speaker := d.speaker
  span := d.span
  observedIntents := intents

def declareDocument (scope purpose reference : String) (observed : List SidecarObservedIntent)
    (place : RouteDocument × Nat × Nat) : Except PyError SidecarDeclaration := do
  let d := place.1
  let lifecycle : LifecycleFields := ⟨clockOf d, none, purpose, reference, []⟩
  let fields := routeFields d
    ((observed.filter fun i => d.factId ∈ i.factIds).insertionSort
      fun a b => a.intentId ≤ b.intentId)
  let lifecycle ← checked lifecycle.Checked (fun checked => ⟨lifecycle, checked⟩)
    "invalid sidecar lifecycle policy"
  let metadata ← checked fields.Checked (fun checked => ⟨fields, checked⟩)
    "invalid sidecar route metadata"
  return .fact (structuredDocument scope place) (some lifecycle) (some metadata)

def batchOf (bundleId scope purpose reference : String) (observed : List SidecarObservedIntent)
    (documents : List RouteDocument) : Except PyError (CausalAdapterBatch SidecarDeclaration) := do
  let declarations ← (places 0 documents).mapM (declareDocument scope purpose reference observed)
  return ⟨bundleId, contentOf documents, scope, declarations⟩

/-- What `_state_from_sidecar` gathers. -/
structure Gathered where
  documents : List RouteDocument
  intentById : Dict String SidecarObservedIntent
  occurrences : Dict String (List Nat)

def gatherIntent (factId : Nat) (s : Gathered) (intent : SidecarObservedIntent) :
    Except OpenTextError Gathered := do
  require (factId ∈ intent.factIds)
    (OpenTextError.runtimeError "open-text intent is outside its FactId fiber")
  require (∀ prior ∈ s.intentById.get intent.intentId, prior = intent)
    (OpenTextError.runtimeError "open-text intent identity was rebound")
  let seen := (s.occurrences.get intent.intentId).getD []
  return { s with
    intentById := s.intentById.set intent.intentId intent
    occurrences := s.occurrences.set intent.intentId (factId :: seen) }

def legacyDocument (scopeId : Nat) (sessionId : String) (fact : FactFields) : DocumentFields where
  factId := fact.factId
  text := fact.value
  scopeId
  sessionId
  version := fact.version
  source := fact.subject
  generationId := none
  sequence := some fact.observedAt
  span := none
  role := none
  eventTime := some fact.eventTime
  safetyPolicy := none
  speaker := none

def routedDocument (fact : FactFields) (m : RouteFields) : DocumentFields where
  factId := fact.factId
  text := fact.value
  scopeId := m.scopeId
  sessionId := m.sessionId
  version := m.version
  source := fact.subject
  generationId := m.generationId
  sequence := m.sequence
  span := m.span
  role := m.role
  eventTime := m.eventTime
  safetyPolicy := none
  speaker := m.speaker

def gatherFact (scopeId : Nat) (sessionId : String) (s : Gathered) (item : AttestedSidecarFact) :
    Except OpenTextError Gathered := do
  let fact := item.fact
  require (fact.predicate = "surface_document" ∧ fact.scope = toString scopeId)
    (OpenTextError.runtimeError "open-text ledger contains a non-document fact")
  match item.routeMetadata with
  | none =>
    let document ← (RouteDocument.make
      (legacyDocument scopeId sessionId fact.toFactFields)).mapError .raised
    return { s with documents := s.documents ++ [document] }
  | some m =>
    require (m.scopeId = scopeId ∧ m.version = fact.version ∧
        (∀ n ∈ m.sequence, n = fact.observedAt) ∧ (∀ n ∈ m.eventTime, n = fact.eventTime))
      (OpenTextError.runtimeError "open-text route metadata disagrees with attested fact")
    let document ← (RouteDocument.make
      (routedDocument fact.toFactFields m.toRouteFields)).mapError .raised
    m.observedIntents.foldlM (gatherIntent fact.factId)
      { s with documents := s.documents ++ [document] }

def checkIntent (s : Gathered) (intent : SidecarObservedIntent) : Except OpenTextError Unit := do
  let occurrences := (s.occurrences.get intent.intentId).getD []
  require ((∀ id ∈ intent.factIds, id ∈ occurrences) ∧ (∀ id ∈ occurrences, id ∈ intent.factIds) ∧
      ∀ id ∈ intent.factIds, id ∈ s.documents.map fun d => d.factId)
    (OpenTextError.runtimeError "open-text intent fiber coverage is incomplete")
  require (OneSession s.documents intent.factIds intent.sessionId)
    (OpenTextError.runtimeError "open-text intent session disagrees with its FactIds")

/-- `_state_from_sidecar`. -/
def stateFromSidecar (scopeId : Nat) (sessionId : String) (items : List AttestedSidecarFact) :
    Except OpenTextError (List RouteDocument × List AnswerContextIntent) := do
  let s ← items.foldlM (gatherFact scopeId sessionId) ⟨[], .empty, .empty⟩
  let intents := s.intentById.items.map Prod.snd
  intents.forM (checkIntent s)
  let ordered := intents.insertionSort fun a b => a.insertionOrder ≤ b.insertionOrder
  require (ordered.map (fun i => i.insertionOrder) = List.range ordered.length)
    (OpenTextError.runtimeError "open-text intent insertion order is not canonical")
  let answers ← (ordered.mapM answerIntent).mapError .raised
  return (s.documents, answers)

end ProofRay.OpenText
