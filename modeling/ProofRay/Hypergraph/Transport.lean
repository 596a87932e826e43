/- The transport of semantic graphs to an executor: the components of an event become facts that
   assume its analysis. -/

import ProofRay.Hypergraph.Graph

namespace ProofRay.Hypergraph

open Attention
open Engine (Crypto PyError)
open Lib (Json sortedSet)
open Lib.Guard
open Sidecar (blank digest encode hexSha256 slice)

/-- `RULE`. -/
def rule : String := "d45.authorized-semantic-hypergraph.v1"

variable (c : Crypto)

/-- What one fact of an event says: a predicate of references. -/
structure Component where
  predicate : String
  arguments : List String
  checked : isPredicate predicate = true ∧ arguments ≠ [] ∧ ∀ a ∈ arguments, IsReference a

namespace D45Graph

variable (graph : D45Graph) (event : D45Event)

/-- `d45_event_predicate`. -/
def predicateComponent : Component where
  predicate := "d45_event_predicate"
  arguments := [graph.ref event.localId, graph.ref event.predicateRef]
  checked := ⟨by decide, List.cons_ne_nil _ _, by
    simp [graph.isReference_ref]⟩

/-- `d45_event_charge`. -/
def chargeComponent : Component where
  predicate := "d45_event_charge"
  arguments := [graph.ref event.localId,
    chargeReference c event.polarity (event.modalities.map graph.ref)]
  checked := ⟨by decide, List.cons_ne_nil _ _, by
    simp [graph.isReference_ref, chargeReference, isReference_reference]⟩

/-- `d45_event_role`. -/
def roleComponent (role : String × String) : Component where
  predicate := "d45_event_role"
  arguments := [graph.ref event.localId, roleReference c role.1, graph.ref role.2]
  checked := ⟨by decide, List.cons_ne_nil _ _, by
    simp [graph.isReference_ref, roleReference, schemaReference, isReference_reference]⟩

/-- `d45_event_temporal`. -/
def temporalComponent (modifier : String × String) : Component where
  predicate := "d45_event_temporal"
  arguments := [graph.ref event.localId, graph.ref modifier.1, graph.ref modifier.2]
  checked := ⟨by decide, List.cons_ne_nil _ _, by simp [graph.isReference_ref]⟩

/-- `d45_event_property`. -/
def propertyComponent (property : String × String) : Component where
  predicate := "d45_event_property"
  arguments := [graph.ref event.localId, schemaReference c "property" property.1,
    schemaReference c "property-value" property.2]
  checked := ⟨by decide, List.cons_ne_nil _ _, by
    simp [graph.isReference_ref, schemaReference, isReference_reference]⟩

def components : List Component :=
  [graph.predicateComponent event, graph.chargeComponent c event] ++
    event.roles.map (graph.roleComponent c event) ++
    event.temporalModifiers.map (graph.temporalComponent event) ++
    event.eventProperties.map (graph.propertyComponent c event)

end D45Graph

/-- A row of a transport: a component with the graph and the event it is from. -/
structure D45Row where
  graph : D45Graph
  event : D45Event
  component : Component

namespace D45Row

variable (row : D45Row)

def payload : Json :=
  .obj [("analysis", .str row.graph.analysisId), ("environment", .str row.graph.environmentLabel),
    ("event", .str ((row.graph.eventPayloads.get row.event.localId).getD "")),
    ("predicate", .str row.component.predicate),
    ("arguments", .arr (row.component.arguments.map .str)),
    ("source_id", .str row.graph.source.sourceId)]

/-- `_canonical(payload)`. -/
def key : String := String.ofList row.payload.dumps

def attestation : String := digest c "horizon-d45-registry-attestation-v1" row.payload

def span : Span := row.graph.eventSpan row.event

def unattested (factId : Nat) : AuthorizedFact where
  factId := factId
  predicate := row.component.predicate
  arguments := row.component.arguments
  scope := row.graph.source.scope
  version := 1
  orbit := "d45:" ++ row.attestation c
  sourceId := row.graph.source.sourceId
  sourceSha256 := row.graph.source.sha256
  sourceSpan := (row.span.1, row.span.2)
  compilerRule := rule
  semanticAttestation := ""
  assumptions := [row.graph.environmentLabel]

/-- `AuthorizedFact.seal`, of a row with its FactId. -/
def fact (factId : Nat) : AuthorizedFact :=
  { row.unattested c factId with
    semanticAttestation := (row.unattested c factId).semanticDigest c }

def Sound : Prop :=
  row.span.1 < row.span.2 ∧ row.span.2 ≤ row.graph.source.content.toList.length ∧
    blank (slice row.graph.source.content row.span.1 row.span.2) = false

instance : Decidable row.Sound := inferInstanceAs (Decidable (_ ∧ _))

end D45Row

def D45Graph.rows (graph : D45Graph) : List D45Row :=
  graph.events.flatMap fun event =>
    (graph.components c event).map fun component => ⟨graph, event, component⟩

def transportRows (graphs : List D45Graph) : List D45Row :=
  (graphs.flatMap (D45Graph.rows c)).insertionSort fun a b => a.key ≤ b.key

/-- `SemanticSource.as_sigma_source`. -/
def SemanticSource.asSigmaSource (source : SemanticSource) : Except PyError SealedSource := do
  require (source.sourceId ≠ "" ∧ source.content ≠ "")
    (.valueError "source identity and content are required")
  require (hexSha256 c (encode source.content) = source.sha256)
    (.valueError "semantic source seal mismatch")
  pure ⟨source.sourceId, source.content, source.sha256⟩

def labelsOf (graphs : List D45Graph) (group : String × String) : List String :=
  (graphs.filter fun graph => graph.group = group).map D45Graph.environmentLabel

def pairsOf : List String → List (String × String)
  | [] => []
  | label :: rest => rest.map (fun other => (label, other)) ++ pairsOf rest

def nogoodPairs (graphs : List D45Graph) : List (String × String) :=
  (graphs.map D45Graph.group).dedup.flatMap fun group =>
    pairsOf (sortedSet id (labelsOf graphs group))

/-- `D45Transport`. -/
structure D45Transport where
  scope : String
  sources : List SealedSource
  facts : List AuthorizedFact
  nogoods : List (List String)
  graphs : List D45Graph
  registryAttestations : List (Nat × String)

/-- `transport`. -/
def transport (graphs : List D45Graph) : Except PyError D45Transport := do
  require (graphs ≠ [] ∧ graphs.length ≤ 256) (.valueError "D45 transport requires 1-256 graphs")
  let scopes := (graphs.map fun graph => graph.source.scope).dedup
  require (scopes.length = 1) (.valueError "D45 transport cannot mix scopes")
  require (∀ graph ∈ graphs, ∀ other ∈ graphs, graph.source.sourceId = other.source.sourceId →
    graph.source = other.source) (.valueError "D45 source identity collision")
  let rows := transportRows c graphs
  let semanticSources := (graphs.map D45Graph.source).dedup.insertionSort fun a b =>
    a.sourceId ≤ b.sourceId
  let sources ← semanticSources.mapM (SemanticSource.asSigmaSource c)
  pure {
    scope := scopes.headD ""
    sources
    facts := (rows.zipIdx 1).map fun entry => entry.1.fact c entry.2
    nogoods := (sortedSet toLex (nogoodPairs graphs)).map fun pair => [pair.1, pair.2]
    graphs := graphs.insertionSort fun a b => a.environmentLabel ≤ b.environmentLabel
    registryAttestations := (rows.zipIdx 1).map fun entry => (entry.2, entry.1.attestation c) }

/-- `D45Transport.executor`. -/
def D45Transport.executor (t : D45Transport) : Except PyError SigmaPBAExecutor :=
  SigmaPBAExecutor.make t.sources t.facts t.scope [rule] t.nogoods

end ProofRay.Hypergraph
