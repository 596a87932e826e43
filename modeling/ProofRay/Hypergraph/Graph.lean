/- Authorized semantic graphs: the terms and events an analysis of a source declares, with their
   references (`authorized_semantic_hypergraph.py`). -/

import ProofRay.Attention.Facts

namespace ProofRay.Hypergraph

open Attention (isVariable)
open Engine (Crypto)
open Lib (Dict Json sortedSet)
open Sidecar (digest)

/-- `_reference`. -/
def reference (c : Crypto) (kind : String) (payload : Json) : String :=
  "d45:" ++ kind ++ ":" ++ digest c ("horizon-d45-" ++ kind ++ "-v1") payload

/-- `_schema_reference`. -/
def schemaReference (c : Crypto) (kind value : String) : String :=
  reference c kind (.obj [("value", .str value)])

/-- `role_reference`. -/
def roleReference (c : Crypto) (role : String) : String := schemaReference c "role" role

/-- `charge_reference`. -/
def chargeReference (c : Crypto) (polarity : String) (modalities : List String) : String :=
  reference c "charge" (.obj [("polarity", .str polarity),
    ("modalities", .arr ((sortedSet id modalities).map .str))])

def sortedPairs (pairs : List (String × String)) : List (String × String) :=
  pairs.insertionSort fun a b => toLex a ≤ toLex b

def pairsJson (pairs : List (String × String)) : Json :=
  .arr (pairs.map fun pair => .arr [.str pair.1, .str pair.2])

/-- `structured_term_reference`, of a term that is well formed. -/
def structuredTermReference (c : Crypto) (operator : String) (edges : List (String × String))
    (operatorRef : Option String) : String :=
  reference c "term" (.obj [("operator", .str operator),
    ("operator_ref", operatorRef.elim .null .str), ("edges", pairsJson (sortedPairs edges))])

def IsReference (s : String) : Prop := "d45:".toList <+: s.toList

theorem isReference_reference (c : Crypto) (kind : String) (payload : Json) :
    IsReference (reference c kind payload) := by
  unfold IsReference reference
  simp only [String.toList_append, List.append_assoc]
  exact List.prefix_append _ _

theorem IsReference.plain {s : String} (is : IsReference s) : s ≠ "" ∧ isVariable s = false := by
  obtain ⟨rest, whole⟩ := is
  constructor
  · rintro rfl
    cases whole
  · unfold isVariable
    rw [← whole]
    rfl

/-- `SemanticSource`. -/
structure SemanticSource where
  sourceId : String
  content : String
  sha256 : String
  scope : String
  deriving DecidableEq

abbrev Span := Nat × Nat

/-- `D45Leaf`. -/
structure D45Leaf where
  localId : String
  kind : String
  surface : String
  canonical : String
  span : Span
  normalizationRule : String
  deriving DecidableEq

/-- `D45Leaf.semantic_ref`. -/
def D45Leaf.semanticRef (c : Crypto) (leaf : D45Leaf) : String :=
  reference c "leaf" (.obj [("kind", .str leaf.kind), ("canonical", .str leaf.canonical)])

/-- `D45GrammarSymbol`. -/
structure D45GrammarSymbol where
  localId : String
  nameSpace : String
  symbol : String
  surface : String
  span : Span
  compilerRule : String
  deriving DecidableEq

/-- `D45GrammarSymbol.semantic_ref`. -/
def D45GrammarSymbol.semanticRef (c : Crypto) (symbol : D45GrammarSymbol) : String :=
  reference c "symbol" (.obj [("namespace", .str symbol.nameSpace), ("symbol", .str symbol.symbol)])

/-- `D45TermNode`. -/
structure D45TermNode where
  localId : String
  operator : String
  edges : List (String × String)
  operatorSymbol : Option String
  declaredKey : Option String
  deriving DecidableEq

/-- `D45Event`. -/
structure D45Event where
  localId : String
  predicateRef : String
  roles : List (String × String)
  polarity : String
  modalities : List String
  temporalModifiers : List (String × String)
  eventProperties : List (String × String)
  deriving DecidableEq

def D45Event.names (event : D45Event) : List String :=
  event.localId :: event.predicateRef :: event.roles.map Prod.snd ++ event.modalities ++
    event.temporalModifiers.flatMap fun modifier => [modifier.1, modifier.2]

def D45Event.payload (c : Crypto) (ref : String → String) (event : D45Event) : Json :=
  .obj [("predicate_ref", .str (ref event.predicateRef)),
    ("roles", pairsJson (sortedPairs (event.roles.map fun role => (role.1, ref role.2)))),
    ("charge_ref", .str (chargeReference c event.polarity (event.modalities.map ref))),
    ("temporal_modifiers", pairsJson (sortedPairs
      (event.temporalModifiers.map fun modifier => (ref modifier.1, ref modifier.2)))),
    ("event_properties", pairsJson event.eventProperties)]

/-- `_IDENTIFIER.fullmatch`. -/
def isIdentifier (s : String) : Bool :=
  s ≠ "" && s.toList.all fun c => Attention.isLower c || Attention.isUpper c ||
    Attention.isDigit c || c = '_' || c = '.' || c = ':' || c = '-'

/-- `D45Graph`, with what a transport reads of it: every id that an event names has a reference. -/
structure D45Graph where
  source : SemanticSource
  analysisId : String
  alternativeSet : String
  leaves : List D45Leaf
  symbols : List D45GrammarSymbol
  nodes : List D45TermNode
  events : List D45Event
  semanticRefs : Dict String String
  eventPayloads : Dict String String
  placed : source.sourceId ≠ "" ∧ source.content ≠ "" ∧ source.scope ≠ ""
  identified : isIdentifier analysisId = true ∧ isIdentifier alternativeSet = true
  eventful : events ≠ []
  closed : ∀ event ∈ events, ∀ name ∈ event.names, name ∈ semanticRefs.keys
  referenced : ∀ entry ∈ semanticRefs.items, IsReference entry.2

namespace D45Graph

variable (graph : D45Graph)

/-- `environment_label`. -/
def environmentLabel : String :=
  "analysis:" ++ graph.source.sourceId ++ ":" ++ graph.alternativeSet ++ ":" ++ graph.analysisId

/-- `(source_id, alternative_set)`: the analyses of one group exclude each other. -/
def group : String × String := (graph.source.sourceId, graph.alternativeSet)

/-- `refs[local_id]`. -/
def ref (localId : String) : String := (graph.semanticRefs.get localId).getD "d45:"

theorem isReference_ref (localId : String) : IsReference (graph.ref localId) := by
  unfold ref
  cases found : graph.semanticRefs.get localId with
  | none => exact List.prefix_refl _
  | some s => exact graph.referenced _ ((Dict.get_eq_some_iff _ _ _).mp found)

def leaf? (localId : String) : Option D45Leaf := graph.leaves.find? fun l => l.localId = localId

def symbol? (localId : String) : Option D45GrammarSymbol :=
  graph.symbols.find? fun s => s.localId = localId

def node? (localId : String) : Option D45TermNode :=
  graph.nodes.find? fun n => n.localId = localId

/-- `collect`, as deep as there are nodes: the ids seen and the spans of the terminals. -/
def collect : Nat → List String × List Span → String → List String × List Span
  | 0, reached, _ => reached
  | depth + 1, (seen, spans), localId =>
    if localId ∈ seen then (seen, spans)
    else match graph.leaf? localId, graph.node? localId with
      | some leaf, _ => (localId :: seen, spans ++ [leaf.span])
      | none, some node =>
        let symbol := node.operatorSymbol.bind graph.symbol?
        node.edges.foldl (fun reached edge => collect depth reached edge.2)
          (localId :: seen, spans ++ symbol.toList.map D45GrammarSymbol.span)
      | none, none => (localId :: seen, spans)

/-- `_event_span`. -/
def eventSpan (event : D45Event) : Span :=
  let symbolSpan (localId : String) : List Span :=
    (graph.symbol? localId).toList.map D45GrammarSymbol.span
  let depth := graph.nodes.length + 1
  let afterRoles := event.roles.foldl (fun reached role => graph.collect depth reached role.2)
    ([], symbolSpan event.predicateRef)
  let afterModalities := (afterRoles.1, afterRoles.2 ++ event.modalities.flatMap symbolSpan)
  let spans := (event.temporalModifiers.foldl (fun reached modifier =>
    graph.collect depth (reached.1, reached.2 ++ symbolSpan modifier.1) modifier.2)
    afterModalities).2
  (((spans.map Prod.fst).min?).getD 0, ((spans.map Prod.snd).max?).getD 0)

end D45Graph

end ProofRay.Hypergraph
