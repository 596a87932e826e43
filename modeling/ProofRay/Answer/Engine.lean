/- The answer engine: what one call makes of a question, and the prepared runtime that it keeps from
   one call to the next (`answer_engine.py`). -/

import ProofRay.Answer.Routing
import ProofRay.Lib.Machine
import ProofRay.Lib.SortedSet

namespace ProofRay.Answer

open Engine (Bytes Crypto PyError)
open Lib (Dict sortedSet)
open Lib.Guard
open OpenText (AnswerContextIntent RouteDocument)
open Sidecar (Role encode hexSha256)

/-- `AnsweredClaim`. -/
structure AnsweredClaim (σ : Type) where
  text : String
  factId : Int
  sourceId : String
  relevanceScore : σ
  role : Option String
  sessionId : Option String
  speaker : Option String
  sequence : Option Nat
  eventTime : Option Nat
  scopeId : Option Nat
  version : Option Nat
  sourceSpan : Option Span
  parentSha256 : Option String
  generationId : Option Nat
  deriving DecidableEq

/-- `ClaimSource`. -/
structure ClaimSource where
  sourceId : String
  content : String
  sha256 : String
  deriving DecidableEq, Repr

/-- `ContextIntent`, with its set of sources in order. -/
structure ContextIntent where
  intentId : String
  text : String
  sourceIds : List String
  sha256 : String
  deriving DecidableEq, Repr

/-- `DirectAnswer`. -/
structure DirectAnswer where
  state : String
  text : String
  method : String
  sourceIds : List String
  proofClosed : Bool
  residual : List String
  certificate : Bytes
  deriving DecidableEq, Repr

def DirectAnswer.notAttempted : DirectAnswer := ⟨"not_attempted", "", "none", [], false, [], []⟩

/-- `AnsweredResult`; `D` is what the two dossiers of an answer are. -/
structure AnsweredResult (σ D : Type) where
  state : String
  claims : List (AnsweredClaim σ)
  answerLines : List (AnsweredClaim σ)
  sources : List ClaimSource
  dossiers : Option D
  documentsConsidered : Nat
  verifiedCandidates : Nat
  answerBytes : Nat
  selector : String
  selectorProofClosed : Option Bool
  selectorResidual : List String
  directAnswer : DirectAnswer
  chosenSize : Nat
  resolverEvidence : List (AnsweredClaim σ)
  deriving DecidableEq

/-- What the dossiers of an answer are turned into. -/
structure Composition (σ : Type) where
  claims : List (AnsweredClaim σ)
  answerLines : List (AnsweredClaim σ)
  selectorProofClosed : Option Bool
  selectorResidual : List String
  chosenSize : Nat

/-- The stages of an answer that work on nothing but what they are given here. -/
structure Stages (σ D : Type) where
  /-- `document_router.generate` and `document_priority_by_source`, of a generator that has one. -/
  documentPriority :
    Option (QueryEnvelope → RoutingIndex → Nat → Except PyError (List (String × σ)))
  /-- `EvidencePack.build` and `budgeted_items`, with the priority of the sources. -/
  budgetedItems : RoutedResult σ → Option (List (String × σ)) →
    Except PyError (List (EvidenceItem σ))
  /-- `build_proof_dossier`, for the core and for the ranked dossier. -/
  buildDossiers : String → List ClaimSource → List ContextIntent → Dict String σ → Except PyError D
  /-- The choice of claims and lines, with the texts of the observed intents for the frontload. -/
  compose : String → List String → D → Dict String Nat → Dict String σ →
    Except PyError (Composition σ)
  /-- `_read_direct_answer`: the question, the lines, the resolver's evidence and the intents. -/
  readDirectAnswer : String → List (AnsweredClaim σ) → List (AnsweredClaim σ) →
    List AnswerContextIntent → DirectAnswer

/-- `HorizonAnswerEngine`, with what its calls read of its profile. -/
structure HorizonAnswerEngine (σ D : Type) where
  scopeId : Nat
  sessionId : String
  claimLimit : Nat
  answerBytes : Nat
  answerSelector : String
  priorityAwareMerge : Bool
  allowScopeFallback : Bool
  reusePreparedRuntime : Bool
  candidateGenerator : CandidateGenerator σ
  stages : Stages σ D

variable {σ D : Type}

/-- `_abstained`. -/
def abstained (stateName : String) (documentsConsidered : Nat) : AnsweredResult σ D :=
  ⟨stateName, [], [], [], none, documentsConsidered, 0, 0, "diversity", none, [],
    .notAttempted, 0, []⟩

def sessionsOf (byId : Dict Nat RouteDocument) (intent : AnswerContextIntent) : List String :=
  ((intent.factIds.filterMap byId.get).map fun document => document.sessionId).dedup

def checkIntents (documents : List RouteDocument) (intents : List AnswerContextIntent) :
    Except PyError Unit := do
  require (intents.map fun intent => intent.intentId).Nodup
    (.valueError "answer context intents require unique intent IDs")
  require (∀ intent ∈ intents, ∀ id ∈ intent.factIds, id ∈ documents.map fun d => d.factId)
    (.valueError "answer context intent references an unknown document FactId")
  let byId := Dict.empty.update (documents.map fun document => (document.factId, document))
  intents.forM fun intent => do
    require ((sessionsOf byId intent).length = 1)
      (.valueError "answer context intent crosses document sessions")
    require (∀ s ∈ intent.sessionId, sessionsOf byId intent = [s])
      (.valueError "answer context intent session does not match its documents")

def resolverClaim [Zero σ] (c : Crypto) (document : RouteDocument) : AnsweredClaim σ :=
  let length := document.text.length
  ⟨document.text, document.factId,
    document.source ++ ":" ++ toString document.factId ++ ":(0, " ++ toString length ++ ")", 0,
    some ((document.role.map Role.text).getD "document"), some document.sessionId,
    document.speaker, document.sequence, document.eventTime, some document.scopeId,
    some document.version, some (document.span.getD (0, length)),
    some (hexSha256 c (encode document.text)), document.generationId⟩

def authority [Zero σ] (document : RouteDocument) : Candidate σ :=
  ⟨document.factId, 0, 1, false, none, unspanned⟩

def resolverEvidence [Zero σ] (c : Crypto) (engine : HorizonAnswerEngine σ D)
    (index : RoutingIndex) (memory : HorizonMemory) (query : QueryEnvelope)
    (documents : List RouteDocument) : Except PyError (List (AnsweredClaim σ)) := do
  let bounded := documents.filter fun document =>
    engine.allowScopeFallback = true ∨ document.sessionId = engine.sessionId
  let admitted ← bounded.mapM fun document => do
    let item ← verify c index memory query (authority (σ := σ) document)
    pure (item.map fun _ => resolverClaim c document)
  return admitted.filterMap id

/-- `str` of a span. -/
def spanText : Option Span → String
  | some (start, stop) => "(" ++ toString start ++ ", " ++ toString stop ++ ")"
  | none => "None"

/-- `ClaimSource.seal`. -/
def ClaimSource.make (c : Crypto) (sourceId content : String) : Except PyError ClaimSource := do
  require (sourceId ≠ "" ∧ content ≠ "") (.valueError "claim sources require identity and content")
  return ⟨sourceId, content, hexSha256 c (encode content)⟩

/-- `ContextIntent.seal`. -/
def ContextIntent.make (c : Crypto) (intentId text : String) (sourceIds : List String) :
    Except PyError ContextIntent := do
  require (intentId ≠ "" ∧ text ≠ "" ∧ sourceIds ≠ [])
    (.valueError "context intent requires text and a non-empty source fiber")
  return ⟨intentId, text, sortedSet id sourceIds, hexSha256 c (encode text)⟩

/-- The sources of an answer, the fact each comes from, and where each is from and how relevant by
its id. -/
structure Gathered (σ : Type) where
  sources : List (ClaimSource × Nat)
  origin : Dict String Nat
  relevance : Dict String σ

def gather (c : Crypto) : List (EvidenceItem σ) → List (String × Nat × Option Span) →
    Gathered σ → Except PyError (Gathered σ)
  | [], _, gathered => .ok gathered
  | item :: items, seen, gathered =>
    let key := (item.source, item.factId, item.contentSpan)
    if key ∈ seen then gather c items seen gathered
    else do
      let sourceId := item.source ++ ":" ++ toString item.factId ++ ":" ++ spanText item.contentSpan
      let source ← ClaimSource.make c sourceId item.content
      gather c items (key :: seen) ⟨gathered.sources ++ [(source, item.factId)],
        gathered.origin.set sourceId item.factId,
        gathered.relevance.set sourceId item.relevanceScore⟩

def sourcesOfFact (sources : List (ClaimSource × Nat)) (factId : Nat) : List String :=
  (sources.filter fun p => p.2 = factId).map fun p => p.1.sourceId

def dossierIntents (c : Crypto) (question : String) (sources : List (ClaimSource × Nat))
    (intents : List AnswerContextIntent) : Except PyError (List ContextIntent) :=
  if intents.isEmpty then do
    let intent ← ContextIntent.make c "q:intent" question (sources.map fun p => p.1.sourceId)
    return [intent]
  else
    (intents.filter fun intent => intent.factIds.any fun id =>
      !(sourcesOfFact sources id).isEmpty).mapM fun intent =>
        ContextIntent.make c intent.intentId intent.text
          (intent.factIds.flatMap (sourcesOfFact sources))

/-- `_fit_rendered_answer_budget`. -/
def fitRenderedAnswerBudget (maxBytes : Nat) : List (AnsweredClaim σ) → Nat →
    List (AnsweredClaim σ) → List (AnsweredClaim σ)
  | [], _, selected => selected
  | line :: lines, used, selected =>
    let cost := (encode line.text).length + if selected.isEmpty then 0 else 1
    if maxBytes < used + cost then fitRenderedAnswerBudget maxBytes lines used selected
    else fitRenderedAnswerBudget maxBytes lines (used + cost) (selected ++ [line])

def answerFrom (c : Crypto) (engine : HorizonAnswerEngine σ D) (question : String)
    (documentsConsidered : Nat) (intents : List AnswerContextIntent)
    (evidence : List (AnsweredClaim σ)) (items : List (EvidenceItem σ)) :
    Except PyError (AnsweredResult σ D) := do
  let gathered ← gather c items [] ⟨[], Dict.empty, Dict.empty⟩
  let sources := gathered.sources.map Prod.fst
  if sources.isEmpty then return abstained RouteState.abstention.name documentsConsidered
  let contextIntents ← dossierIntents c question gathered.sources intents
  if contextIntents.isEmpty then return abstained "ABSTAIN_NO_CONTEXT_INTENT" documentsConsidered
  match engine.stages.buildDossiers question sources contextIntents gathered.relevance with
  | .error (.valueError _) => return abstained RouteState.abstention.name documentsConsidered
  | .error e => throw e
  | .ok dossiers =>
    let composed ← engine.stages.compose question (intents.map fun intent => intent.text) dossiers
      gathered.origin gathered.relevance
    let answerLines := fitRenderedAnswerBudget engine.answerBytes composed.answerLines 0 []
    let rendered := encode (String.intercalate "\n" (answerLines.map AnsweredClaim.text))
    return ⟨"RESOLVED", composed.claims, answerLines, sources, some dossiers, documentsConsidered,
      sources.length, rendered.length, engine.answerSelector, composed.selectorProofClosed,
      composed.selectorResidual,
      engine.stages.readDirectAnswer question answerLines evidence intents,
      composed.chosenSize, evidence⟩

/-- `_answer_locked`, from the prepared runtime on. -/
def respond [LinearOrder σ] [Zero σ] (c : Crypto) (engine : HorizonAnswerEngine σ D)
    (index : RoutingIndex) (memory : HorizonMemory) (question : String)
    (documents : List RouteDocument) (intents : List AnswerContextIntent) :
    Except PyError (AnsweredResult σ D) := do
  checkIntents documents intents
  let query ← QueryEnvelope.make "q" question engine.scopeId engine.sessionId 10
  let evidence ← resolverEvidence c engine index memory query documents
  if ∃ intent ∈ intents, ∃ id ∈ intent.factIds, ∀ claim ∈ evidence, claim.factId ≠ id then
    return abstained "ABSTAIN_CONTEXT_AUTHORITY" documents.length
  let result ← route c index engine.candidateGenerator memory query engine.claimLimit
    engine.allowScopeFallback
  if result.state ≠ .evidence then return abstained result.state.name documents.length
  if engine.priorityAwareMerge then
    match engine.stages.documentPriority with
    | none => return abstained "ABSTAIN_PRIORITY_AUTHORITY" documents.length
    | some documentPriority =>
      let priority ← documentPriority query index engine.claimLimit
      let items ← engine.stages.budgetedItems result (some priority)
      answerFrom c engine question documents.length intents evidence items
  else
    let items ← engine.stages.budgetedItems result none
    answerFrom c engine question documents.length intents evidence items

/-- `_PreparedAnswerRuntime`. -/
structure PreparedRuntime where
  documents : List RouteDocument
  index : RoutingIndex
  memory : HorizonMemory

/-- Where an exception comes up around the runtime. -/
inductive Point where
  | preparing
  | replacing
  | answering
  deriving DecidableEq, Repr

/-- One call of `answer`, with what happens around it: the fate of the write of each document, and
an exception at one of the points. -/
structure Call where
  question : String
  documents : List RouteDocument
  intents : List AnswerContextIntent
  fate : Nat → Fate
  interrupted : Option (Point × PyError)

def Call.raisesAt (call : Call) (point : Point) : Except PyError Unit :=
  match call.interrupted with
  | some (p, e) => if p = point then .error e else .ok ()
  | none => .ok ()

/-- The writes of a preparation. What `put` answers is not read. -/
def admitAll (scopeId : Nat) (fate : Nat → Fate) : List RouteDocument → HorizonMemory →
    Except PyError HorizonMemory
  | [], memory => .ok memory
  | document :: documents, memory => do
    let (_, memory) ← memory.put (fate document.factId) scopeId document.factId document.version 1
    admitAll scopeId fate documents memory

def prepare (engine : HorizonAnswerEngine σ D) (call : Call) : Except PyError PreparedRuntime := do
  let index ← RoutingIndex.make call.documents
  call.raisesAt .preparing
  let memory ← admitAll engine.scopeId call.fate call.documents (.create engine.scopeId)
  return ⟨call.documents, index, memory⟩

/-- `_prepare_runtime`: the runtime of a call, and the one kept afterwards. -/
def prepareRuntime (engine : HorizonAnswerEngine σ D) (kept : Option PreparedRuntime)
    (call : Call) : Except PyError PreparedRuntime × Option PreparedRuntime :=
  match kept.filter fun runtime => runtime.documents = call.documents with
  | some runtime => (.ok runtime, kept)
  | none =>
    match prepare engine call with
    | .error e => (.error e, kept)
    | .ok replacement =>
      match call.raisesAt .replacing with
      | .error e => (.error e, none)
      | .ok () => (.ok replacement, some replacement)

/-- `_answer_locked`, with the runtime kept afterwards. -/
def answerLocked [LinearOrder σ] [Zero σ] (c : Crypto) (engine : HorizonAnswerEngine σ D)
    (kept : Option PreparedRuntime) (call : Call) :
    Except PyError (AnsweredResult σ D) × Option PreparedRuntime :=
  if (call.documents.map fun document => document.factId).Nodup then
    match prepareRuntime engine kept call with
    | (.error e, kept) => (.error e, kept)
    | (.ok runtime, kept) =>
      (do call.raisesAt .answering
          respond c engine runtime.index runtime.memory call.question call.documents call.intents,
        kept)
  else (.error (.valueError "answer documents require unique FactIds"), kept)

/-- `HorizonAnswerEngine.answer`: what it returns or raises, and the runtime kept afterwards. -/
def answer [LinearOrder σ] [Zero σ] (c : Crypto) (engine : HorizonAnswerEngine σ D)
    (kept : Option PreparedRuntime) (call : Call) :
    Except PyError (AnsweredResult σ D) × Option PreparedRuntime :=
  match answerLocked c engine kept call with
  | (.error e, _) => (.error e, none)
  | (.ok result, kept) => (.ok result, if engine.reusePreparedRuntime then kept else none)

end ProofRay.Answer
