/- Routing a question: the store that admits documents, the index over them, the verifier and the
   router (`routing.py`, `api.py`). -/

import ProofRay.OpenText.Documents
import ProofRay.Engine.Store
import Mathlib.Data.Prod.Lex
import Mathlib.Order.Lex

namespace ProofRay.Answer

open Engine (Crypto Decision PyError SequentialModel)
open Lib (Dict)
open Lib.Guard
open OpenText (RouteDocument)
open Sidecar (Role blank encode hexSha256 slice)

inductive ReadState where
  | present
  | deleted
  | notFound
  | abstainScope
  deriving DecidableEq, Repr

/-- `ReadResult`, with what the verifier reads of it. -/
structure ReadResult where
  state : ReadState
  value : Option Int
  generationId : Option Nat
  version : Option Int
  deriving DecidableEq, Repr

inductive WriteState where
  | applied
  | idempotent
  | staleRejected
  | versionConflict
  | overload
  | rejectedScope
  deriving DecidableEq, Repr

/-- What becomes of a write: the writer decides it, or the caller is told of an overload, and the
write has reached the store or not. -/
inductive Fate where
  | decided
  | overloaded (written : Bool)
  deriving DecidableEq, Repr

/-- `HorizonMemory`: the store of one scope, as its published generation reads. -/
structure HorizonMemory where
  scopeId : Nat
  generationId : Nat
  facts : SequentialModel

namespace HorizonMemory

/-- `HorizonMemory.create`, on `HorizonConfig`'s default generation. -/
def create (scopeId : Nat) : HorizonMemory := ⟨scopeId, 1, SequentialModel.init⟩

def writeState : Decision → WriteState
  | .applied => .applied
  | .stale => .staleRejected
  | .idempotent => .idempotent
  | .conflict => .versionConflict

/-- `HorizonMemory.put`. A write that fails is answered, not raised. -/
def put (m : HorizonMemory) (fate : Fate) (scope factId : Nat) (version value : Int) :
    Except PyError (WriteState × HorizonMemory) := do
  if scope ≠ m.scopeId then return (.rejectedScope, m)
  require (0 ≤ value ∧ value ≤ 255) (.valueError "value outside the store's domain")
  let (decision, facts) := m.facts.put factId value version
  match fate with
  | .decided => return (writeState decision, { m with facts })
  | .overloaded true => return (.overload, { m with facts })
  | .overloaded false => return (.overload, m)

/-- `HorizonMemory.get`, without a read view. -/
def get (m : HorizonMemory) (scope factId : Nat) : ReadResult :=
  if scope ≠ m.scopeId then ⟨.abstainScope, none, none, none⟩
  else
    match m.facts.state.get factId with
    | none => ⟨.notFound, none, some m.generationId, none⟩
    | some fact =>
      match m.facts.read factId with
      | .value v => ⟨.present, v, some m.generationId, some fact.version⟩
      | _ => ⟨.deleted, none, some m.generationId, some fact.version⟩

end HorizonMemory

/-- `QueryEnvelope`. -/
structure QueryEnvelope where
  queryId : String
  text : String
  scopeId : Nat
  sessionId : String
  timestamp : Nat
  checked : queryId ≠ "" ∧ blank text = false ∧ sessionId ≠ ""

def QueryEnvelope.make (queryId text : String) (scopeId : Nat) (sessionId : String)
    (timestamp : Nat) : Except PyError QueryEnvelope :=
  OpenText.checked (queryId ≠ "" ∧ blank text = false ∧ sessionId ≠ "")
    (fun checked => ⟨queryId, text, scopeId, sessionId, timestamp, checked⟩)
    "query_id, text and session_id are required"

/-- `RoutingIndex`. The tables of tokens are functions of the documents. -/
structure RoutingIndex where
  documents : List RouteDocument
  byId : Dict Nat RouteDocument

namespace RoutingIndex

def collect : List RouteDocument → Dict Nat RouteDocument →
    Except PyError (Dict Nat RouteDocument)
  | [], byId => .ok byId
  | document :: documents, byId => do
    require (byId.get document.factId = none) (.valueError "duplicate fact_id")
    collect documents (byId.set document.factId document)

/-- `tuple(sorted(documents, key=lambda item: item.fact_id))`. -/
def inOrder (documents : List RouteDocument) : List RouteDocument :=
  documents.insertionSort fun a b => a.factId ≤ b.factId

/-- `RoutingIndex(..)`. -/
def make (documents : List RouteDocument) : Except PyError RoutingIndex := do
  let byId ← collect documents Dict.empty
  return ⟨inOrder documents, byId⟩

theorem collect_eq (documents : List RouteDocument) (byId : Dict Nat RouteDocument) :
    collect documents byId =
      if (documents.map fun d => d.factId).Nodup ∧ ∀ d ∈ documents, byId.get d.factId = none then
        .ok (byId.update (documents.map fun d => (d.factId, d)))
      else .error (.valueError "duplicate fact_id") := by
  induction documents generalizing byId with
  | nil => simp [collect]
  | cons d documents ih =>
    rw [collect]
    by_cases fresh : byId.get d.factId = none
    · rw [require, if_pos fresh, ok_bind, ih, List.map_cons, List.map_cons, Dict.update_cons]
      refine if_congr ?_ rfl rfl
      rw [List.nodup_cons, List.forall_mem_cons, and_iff_right fresh, and_comm (a := _ ∉ _),
        and_assoc]
      refine and_congr_right fun _ => ?_
      constructor
      · intro absent
        have apart : ∀ d' ∈ documents, d.factId ≠ d'.factId := by
          intro d' member same
          have gone := absent d' member
          rw [← same, Dict.get_set_self] at gone
          cases gone
        refine ⟨fun member => ?_, fun d' member => ?_⟩
        · obtain ⟨d', there, same⟩ := List.mem_map.mp member
          exact apart d' there same.symm
        · rw [← absent d' member, Dict.get_set_ne _ _ (apart d' member)]
      · rintro ⟨unique, absent⟩ d' member
        have other : d.factId ≠ d'.factId := fun same =>
          unique (List.mem_map.mpr ⟨d', member, same.symm⟩)
        rw [Dict.get_set_ne _ _ other]
        exact absent d' member
    · rw [require, if_neg fresh, if_neg fun good => fresh (good.2 d List.mem_cons_self)]
      rfl

theorem make_eq (documents : List RouteDocument) : make documents =
    if (documents.map fun d => d.factId).Nodup then
      .ok ⟨inOrder documents, Dict.empty.update (documents.map fun d => (d.factId, d))⟩
    else .error (.valueError "duplicate fact_id") := by
  rw [make, collect_eq]
  split_ifs with good unique unique
  · rfl
  · exact absurd good.1 unique
  · exact absurd ⟨unique, fun _ _ => rfl⟩ good
  · rfl

/-- `RoutingIndex.eligible`. -/
def eligible (index : RoutingIndex) (query : QueryEnvelope) (sameSession : Bool) :
    List RouteDocument :=
  index.documents.filter fun document => document.scopeId = query.scopeId ∧
    (sameSession = true → document.sessionId = query.sessionId)

end RoutingIndex

/-- `(start, end)` in a document's text. -/
abbrev Span := Nat × Nat

/-- `Candidate`, with a score of any kind. -/
structure Candidate (σ : Type) where
  factId : Nat
  score : σ
  rank : Nat
  fallback : Bool   -- the namespace is `scope_fallback`, not `scope_session`
  claimSpan : Option Span
  checked : ∀ s ∈ claimSpan, s.1 < s.2

theorem unspanned : ∀ s ∈ (none : Option Span), s.1 < s.2 := by simp

/-- `CandidateGenerator.generate`: the query, the index, the limit and whether the candidates come
from the query's own session. -/
abbrev CandidateGenerator (σ : Type) :=
  QueryEnvelope → RoutingIndex → Nat → Bool → Except PyError (List (Candidate σ))

/-- `EvidenceItem`, verified. -/
structure EvidenceItem (σ : Type) where
  factId : Nat
  source : String
  version : Int
  value : Option Int
  content : String
  span : Option Span
  sequence : Option Nat
  retrievalRank : Nat
  eventTime : Option Nat
  contentSpan : Option Span
  parentSha256 : Option String
  relevanceScore : σ
  deriving DecidableEq

variable {σ : Type}

def attributed (role : Option Role) (text : String) : String :=
  match role with
  | some role => role.text ++ ": " ++ text
  | none => text

/-- What `EvidenceItem.__post_init__` can still refuse of a verified item. -/
def checkedItem (item : EvidenceItem σ) : Except PyError (Option (EvidenceItem σ)) := do
  require (1 ≤ item.retrievalRank) (.valueError "retrieval_rank must be positive")
  return some item

/-- `HorizonVerifier.verify`. -/
def verify (c : Crypto) (index : RoutingIndex) (memory : HorizonMemory) (query : QueryEnvelope)
    (candidate : Candidate σ) : Except PyError (Option (EvidenceItem σ)) :=
  match index.byId.get candidate.factId with
  | none => .ok none
  | some document =>
    if document.scopeId ≠ query.scopeId then .ok none
    else
      let read := memory.get query.scopeId candidate.factId
      if read.state ≠ .present ∨ read.version ≠ some (document.version : Int) then .ok none
      else if document.generationId.isSome ∧ read.generationId ≠ document.generationId then
        .ok none
      else
        match candidate.claimSpan with
        | some (start, stop) =>
          if document.text.length < stop then .ok none
          else
            checkedItem ⟨candidate.factId, document.source, document.version, read.value,
              attributed document.role (slice document.text start stop), document.span,
              document.sequence, candidate.rank, document.eventTime, some (start, stop),
              some (hexSha256 c (encode document.text)), candidate.score⟩
        | none =>
          checkedItem ⟨candidate.factId, document.source, document.version, read.value,
            attributed document.role document.text, document.span, document.sequence,
            candidate.rank, document.eventTime, none, none, candidate.score⟩

inductive RouteState where
  | evidence
  | abstention
  | abstainScope
  deriving DecidableEq, Repr

/-- `RouteState.name`. -/
def RouteState.name : RouteState → String
  | .evidence => "EVIDENCE"
  | .abstention => "ABSTENTION"
  | .abstainScope => "ABSTAIN_SCOPE"

/-- `RoutedResult`, with the parts of its evidence pack that come from the route. -/
structure RoutedResult (σ : Type) where
  state : RouteState
  items : List (EvidenceItem σ)
  generationId : Option Nat
  fallbackUsed : Bool

section

variable [LinearOrder σ]

/-- The order of candidates of both namespaces: `(-score, not in the session, fact_id, span)`. -/
def Candidate.order (candidate : Candidate σ) : σᵒᵈ ×ₗ Bool ×ₗ Nat ×ₗ Int ×ₗ Int :=
  toLex (OrderDual.toDual candidate.score, toLex (candidate.fallback, toLex (candidate.factId,
    match candidate.claimSpan with
    | some s => toLex ((s.1 : Int), (s.2 : Int))
    | none => toLex (-1, -1))))

/-- The candidates of the session and of the scope as one ranking, each span of a document once,
with its better score. -/
def mergeFallback (primary fallback : List (Candidate σ)) (limit : Nat) : List (Candidate σ) :=
  let merged : Dict (Nat × Option Span) (Candidate σ) := Dict.empty.update
    (primary.map fun candidate => ((candidate.factId, candidate.claimSpan), candidate))
  let merged := fallback.foldl (fun merged candidate =>
    let key := (candidate.factId, candidate.claimSpan)
    match merged.get key with
    | none => merged.set key candidate
    | some previous =>
      if previous.score < candidate.score then merged.set key candidate else merged) merged
  ((merged.items.map Prod.snd).insertionSort fun a b => a.order ≤ b.order).take limit

/-- `SemanticRouter.route`, without a safety policy. -/
def route (c : Crypto) (index : RoutingIndex) (generate : CandidateGenerator σ)
    (memory : HorizonMemory) (query : QueryEnvelope) (limit : Nat) (allowScopeFallback : Bool) :
    Except PyError (RoutedResult σ) := do
  require (1 ≤ limit) (.valueError "limit must be a positive integer")
  if query.scopeId ≠ memory.scopeId then return ⟨.abstainScope, [], none, false⟩
  let primary ← generate query index limit true
  let candidates ←
    if allowScopeFallback then do
      let fallback ← generate query index limit false
      pure (mergeFallback primary fallback limit)
    else pure primary
  let fallbackUsed := allowScopeFallback && candidates.any Candidate.fallback
  let verified ← (candidates.take limit).mapM (verify c index memory query)
  let items := verified.filterMap id
  let generationId := items.head?.bind fun item =>
    (memory.get query.scopeId item.factId).generationId
  return ⟨if items.isEmpty then .abstention else .evidence, items, generationId, fallbackUsed⟩

end

end ProofRay.Answer
