/- The semantic router over any candidate generator and any store: a ranking of candidates, each
   verified against the store, becomes an evidence pack (`routing.py`). -/

import ProofRay.Answer.Routing
import ProofRay.Engine.Primitives
import ProofRay.Evidence.Pack

namespace ProofRay.SemanticRouter

open Answer (QueryEnvelope RoutingIndex Span attributed)
open Engine (Crypto PyError stdCrypto)
open Evidence (EvidenceItem EvidencePack)
open Lib (Dict)
open Lib.Guard
open OpenText (RouteDocument)
open Sidecar (blank encode hexSha256 isSha256 isSha256_hexSha256 slice)

inductive ReadState where
  | present
  | deleted
  | notFound
  | abstain
  | abstainScope
  deriving DecidableEq, Repr

/-- `ReadResult`, with what the verifier reads of it. -/
structure ReadResult where
  state : ReadState
  value : Option Int
  generationId : Option Nat
  version : Option Int
  deriving DecidableEq, Repr

/-- The store a verifier asks: its scope, and its answer to `get(scope, fact_id)`. -/
structure Store where
  scopeId : Nat
  get : Nat → Nat → ReadResult

/-- `Candidate`; its FactId and its rank are whatever a generator puts there. -/
structure Candidate (σ : Type) where
  factId : Int
  score : σ
  channel : String
  rank : Int
  space : String   -- `namespace`
  claimSpan : Option Span
  checked : ∀ s ∈ claimSpan, s.1 < s.2

def Candidate.identity {σ : Type} (candidate : Candidate σ) : Int × Option Span :=
  (candidate.factId, candidate.claimSpan)

/-- `CandidateList`. -/
structure CandidateList (σ : Type) where
  candidates : List (Candidate σ)
  deduplicated : (candidates.map Candidate.identity).Nodup

/-- `CandidateGenerator`: the query, the index, the limit and whether the candidates come from the
query's own session. -/
structure CandidateGenerator (σ : Type) where
  channel : String
  generate : QueryEnvelope → RoutingIndex → Int → Bool → CandidateList σ

/-- How the scores of candidates compare, and the order their ranking puts them in. -/
structure Ranking (σ : Type) where
  above : σ → σ → Bool
  sorted : List (Candidate σ) → List (Candidate σ)
  perm : ∀ candidates, (sorted candidates).Perm candidates

/-- The key of a candidate: `(-score, not in the session, fact_id, span)`. -/
def Candidate.order {σ : Type} [LinearOrder σ] (candidate : Candidate σ) :
    σᵒᵈ ×ₗ Bool ×ₗ Int ×ₗ Int ×ₗ Int :=
  toLex (OrderDual.toDual candidate.score, toLex (decide (candidate.space ≠ "scope_session"),
    toLex (candidate.factId, match candidate.claimSpan with
      | some s => toLex ((s.1 : Int), (s.2 : Int))
      | none => toLex (-1, -1))))

/-- The ranking by scores that are comparable; a score that is not a number has no place of its
own in `sorted`. -/
def Ranking.byScore {σ : Type} [LinearOrder σ] : Ranking σ where
  above score previous := previous < score
  sorted candidates := candidates.insertionSort fun a b => a.order ≤ b.order
  perm _ := List.perm_insertionSort _ _

variable {σ : Type} (c : Crypto)

/-- `by_id.get(fact_id)`. -/
def lookup (index : RoutingIndex) : Int → Option RouteDocument
  | .ofNat factId => index.byId.get factId
  | .negSucc _ => none

theorem unlabelled : ∀ label ∈ (none : Option String), blank label = false ∧ '\n' ∉ label.toList :=
  fun _ member => absurd member (Option.not_mem_none _)

theorem unhashed : ∀ sha256 ∈ (none : Option String), isSha256 sha256 = true :=
  fun _ member => absurd member (Option.not_mem_none _)

theorem verified_ne_mixed : Evidence.VerifierState.verified ≠ .mixed := by decide

theorem ranked_of_pos {position : Int} (ranked : 1 ≤ position) :
    ∀ rank ∈ some position.toNat, 1 ≤ rank := by
  intro rank same
  obtain rfl := Option.some.inj same
  omega

theorem Candidate.spanned (candidate : Candidate σ) : ∀ s ∈ candidate.claimSpan, s.1 ≤ s.2 :=
  fun s member => (candidate.checked s member).le

/-- `EvidenceItem(..)` for a verified candidate of a document. -/
def evidenceItem (document : RouteDocument) (read : ReadResult) (factId : Nat) (content : String)
    (candidate : Candidate σ) (parentSha256 : Option String)
    (hashed : ∀ sha256 ∈ parentSha256, Sidecar.isSha256 sha256 = true) :
    Except PyError (EvidenceItem σ) :=
  if ranked : 1 ≤ candidate.rank then
    .ok
      { factId, source := document.source, version := read.version, value := read.value
        content := some content
        span := document.span.map fun s => ((s.1 : Int), (s.2 : Int))
        verifierState := .verified, sequence := document.sequence
        retrievalRank := some candidate.rank.toNat, eventTime := document.eventTime
        contentSpan := candidate.claimSpan, parentSha256, eventLabel := none
        relevanceScore := some candidate.score
        named := document.checked.2.1.2.2
        judged := verified_ne_mixed
        ranked := ranked_of_pos ranked
        spanned := candidate.spanned
        hashed
        labelled := unlabelled }
  else .error (.valueError "retrieval_rank must be positive")

/-- `HorizonVerifier.verify`. -/
def verify (index : RoutingIndex) (memory : Store) (query : QueryEnvelope)
    (candidate : Candidate σ) : Except PyError (Option (EvidenceItem σ)) :=
  match lookup index candidate.factId with
  | none => .ok none
  | some document =>
    if document.scopeId ≠ query.scopeId then .ok none
    else
      let read := memory.get query.scopeId candidate.factId.toNat
      if read.state ≠ .present ∨ read.version ≠ some (document.version : Int) then .ok none
      else if document.generationId.isSome ∧ read.generationId ≠ document.generationId then
        .ok none
      else
        match candidate.claimSpan with
        | some (start, stop) =>
          if document.text.length < stop then .ok none
          else
            (evidenceItem document read candidate.factId.toNat
              (attributed document.role (slice document.text start stop)) candidate
              (some (hexSha256 c (encode document.text)))
              fun _ same => Option.some.inj same ▸ isSha256_hexSha256 c _).map some
        | none =>
          (evidenceItem document read candidate.factId.toNat
            (attributed document.role document.text) candidate none
            unhashed).map some

inductive RouteState where
  | evidence
  | abstention
  | abstainScope
  | abstainUnsafeContent
  deriving DecidableEq, Repr

/-- `RouteTrace`. -/
structure RouteTrace where
  queryId : String
  channel : String
  requestedL : Int
  candidatesTouched : Nat
  horizonLookups : Nat
  verifierRejections : Nat
  sessionFallbackUsed : Bool
  reason : String
  deriving DecidableEq, Repr

/-- `RoutedResult`. -/
structure RoutedResult (σ : Type) where
  state : RouteState
  evidence : EvidencePack σ
  trace : RouteTrace

/-- `EvidencePack.empty`. -/
def emptyPack (query : QueryEnvelope) : EvidencePack σ where
  queryId := query.queryId
  items := []
  generationId := none
  recoveryReason := "cold-store"
  verifierState := .rejected
  citations := []
  integrityDigest := ""
  queryPlan := none
  citationLabels := []
  named := query.checked.1
  aligned := ⟨rfl, rfl⟩
  ordered := ⟨List.nodup_nil, rfl⟩
  planned := unlabelled

def merged (ranking : Ranking σ) (primary fallback : List (Candidate σ)) :
    Dict (Int × Option Span) (Candidate σ) :=
  fallback.foldl (fun merged candidate =>
    match merged.get candidate.identity with
    | none => merged.set candidate.identity candidate
    | some previous =>
      if ranking.above candidate.score previous.score then
        merged.set candidate.identity candidate
      else merged)
    (Dict.empty.update (primary.map fun candidate => (candidate.identity, candidate)))

def touched (ranking : Ranking σ) (generator : CandidateGenerator σ) (index : RoutingIndex)
    (query : QueryEnvelope) (limit : Int) (allowScopeFallback : Bool) : List (Candidate σ) :=
  let primary := (generator.generate query index limit true).candidates
  let candidates :=
    if allowScopeFallback then
      let fallback := (generator.generate query index limit false).candidates
      (ranking.sorted ((merged ranking primary fallback).items.map Prod.snd)).take limit.toNat
    else primary
  candidates.take limit.toNat

/-- `route`. `safe` is `screen_text(..).safe` under a safety policy, when there is one. -/
def route (ranking : Ranking σ) (generator : CandidateGenerator σ) (index : RoutingIndex)
    (memory : Store) (query : QueryEnvelope) (limit : Int) (allowScopeFallback : Bool)
    (safe : Option (String → Bool)) : Except PyError (RoutedResult σ) := do
  require (1 ≤ limit) (.valueError "limit must be a positive integer")
  let trace := RouteTrace.mk query.queryId generator.channel limit
  if query.scopeId ≠ memory.scopeId then
    return ⟨.abstainScope, emptyPack query, trace 0 0 0 false "scope_mismatch"⟩
  if safe.any fun safe => !safe query.text then
    return ⟨.abstainUnsafeContent, emptyPack query, trace 0 0 0 false "unsafe_query"⟩
  let candidates := touched ranking generator index query limit allowScopeFallback
  let fallbackUsed := allowScopeFallback &&
    candidates.any fun candidate => candidate.space = "scope_fallback"
  let verified ← candidates.mapM (verify c index memory query)
  let items := verified.filterMap id
  let rejections := (verified.filter Option.isNone).length
  if safe.any fun safe => items.any fun item => item.content.any fun content => !safe content then
    return ⟨.abstainUnsafeContent, emptyPack query, trace candidates.length candidates.length
      rejections fallbackUsed "unsafe_evidence"⟩
  let generationId := items.head?.bind fun item =>
    (memory.get query.scopeId item.factId).generationId
  let pack ← EvidencePack.build c query.queryId items generationId
    (if fallbackUsed then "fallback" else if items.isEmpty then "cold-store" else "bulk") none
    Dict.empty
  return ⟨if items.isEmpty then .abstention else .evidence, pack, trace candidates.length
    candidates.length rejections fallbackUsed
    (if items.isEmpty then "no_verified_candidate" else "verified")⟩

/-- A candidate the verifier lets through: its document is of the query's scope, the store holds
the fact at the document's version and generation, and the span lies in the text. -/
structure Admitted (index : RoutingIndex) (memory : Store) (query : QueryEnvelope)
    (candidate : Candidate σ) (document : RouteDocument) : Prop where
  indexed : lookup index candidate.factId = some document
  scope : document.scopeId = query.scopeId
  present : (memory.get query.scopeId candidate.factId.toNat).state = .present
  version : (memory.get query.scopeId candidate.factId.toNat).version =
    some (document.version : Int)
  generation : document.generationId.isSome →
    (memory.get query.scopeId candidate.factId.toNat).generationId = document.generationId
  inside : ∀ s ∈ candidate.claimSpan, s.2 ≤ document.text.length

/-- The item of a candidate and its document. -/
structure ItemOf (candidate : Candidate σ) (document : RouteDocument) (item : EvidenceItem σ) :
    Prop where
  factId : item.factId = candidate.factId.toNat
  span : item.contentSpan = candidate.claimSpan
  source : item.source = document.source

variable {c} {index : RoutingIndex} {memory : Store} {query : QueryEnvelope}
  {candidate : Candidate σ} {document : RouteDocument}

theorem Admitted.unique {document' : RouteDocument}
    (admitted : Admitted index memory query candidate document)
    (admitted' : Admitted index memory query candidate document') : document = document' :=
  Option.some.inj (admitted.indexed.symm.trans admitted'.indexed)

theorem verify_of_admitted (admitted : Admitted index memory query candidate document) :
    ∃ content parentSha256 hashed, verify c index memory query candidate =
      (evidenceItem document (memory.get query.scopeId candidate.factId.toNat)
        candidate.factId.toNat content candidate parentSha256 hashed).map some := by
  unfold verify
  rw [admitted.indexed]
  simp only
  rw [if_neg (not_not.mpr admitted.scope),
    if_neg (not_or.mpr ⟨not_not.mpr admitted.present, not_not.mpr admitted.version⟩),
    if_neg fun moved => moved.2 (admitted.generation moved.1)]
  cases claimed : candidate.claimSpan with
  | none => exact ⟨_, none, nofun, rfl⟩
  | some span =>
    simp only
    rw [if_neg (not_lt.mpr (admitted.inside span claimed))]
    exact ⟨_, some (hexSha256 c (encode document.text)),
      by simpa using isSha256_hexSha256 c _, rfl⟩

theorem verify_of_not_admitted
    (refused : ∀ document, ¬ Admitted index memory query candidate document) :
    verify c index memory query candidate = .ok none := by
  unfold verify
  cases indexed : lookup index candidate.factId with
  | none => rfl
  | some document =>
    simp only
    split
    · rfl
    · rename_i scope
      split
      · rfl
      · rename_i there
        obtain ⟨present, version⟩ := not_or.mp there
        split
        · rfl
        · rename_i stayed
          have admitted (inside : ∀ s ∈ candidate.claimSpan, s.2 ≤ document.text.length) :
              Admitted index memory query candidate document :=
            ⟨indexed, not_not.mp scope, not_not.mp present, not_not.mp version,
              fun given => not_not.mp fun moved => stayed ⟨given, moved⟩, inside⟩
          cases claimed : candidate.claimSpan with
          | none => exact absurd (admitted (by simp [claimed])) (refused document)
          | some span =>
            simp only
            split
            · rfl
            · rename_i within
              refine absurd (admitted fun s member => ?_) (refused document)
              obtain rfl := Option.some.inj (claimed.symm.trans member)
              exact not_lt.mp within

/-- What the verifier answers: an item of an admitted candidate with a rank, a refusal of one
without, and nothing for any other candidate. -/
inductive Verified (index : RoutingIndex) (memory : Store) (query : QueryEnvelope)
    (candidate : Candidate σ) : Except PyError (Option (EvidenceItem σ)) → Prop
  | item {document : RouteDocument} {item : EvidenceItem σ}
      (admitted : Admitted index memory query candidate document) (ranked : 1 ≤ candidate.rank)
      (made : ItemOf candidate document item) : Verified index memory query candidate
        (.ok (some item))
  | unranked {document : RouteDocument}
      (admitted : Admitted index memory query candidate document)
      (unranked : candidate.rank < 1) : Verified index memory query candidate
        (.error (.valueError "retrieval_rank must be positive"))
  | passed (refused : ∀ document, ¬ Admitted index memory query candidate document) :
      Verified index memory query candidate (.ok none)

variable (c index memory query candidate) in
theorem verified_verify : Verified index memory query candidate
    (verify c index memory query candidate) := by
  by_cases some_document : ∃ document, Admitted index memory query candidate document
  · obtain ⟨document, admitted⟩ := some_document
    obtain ⟨content, parentSha256, hashed, same⟩ := verify_of_admitted (c := c) admitted
    rw [same, evidenceItem]
    split
    · rename_i ranked
      exact .item admitted ranked ⟨rfl, rfl, rfl⟩
    · rename_i unranked
      exact .unranked admitted (not_le.mp unranked)
  · have refused := not_exists.mp some_document
    rw [verify_of_not_admitted refused]
    exact .passed refused

abbrev Answers (c : Crypto) (index : RoutingIndex) (memory : Store) (query : QueryEnvelope) :
    List (Candidate σ) → List (Option (EvidenceItem σ)) → Prop :=
  List.Forall₂ fun candidate answer => verify c index memory query candidate = .ok answer

variable {candidates : List (Candidate σ)} {verified : List (Option (EvidenceItem σ))}

theorem answers_of_mapM (mapped : candidates.mapM (verify c index memory query) = .ok verified) :
    Answers c index memory query candidates verified := by
  induction candidates generalizing verified with
  | nil =>
    cases mapped
    exact .nil
  | cons candidate rest ih =>
    simp only [List.mapM_cons, bind_eq_ok, pure_eq_ok] at mapped
    obtain ⟨answer, made, answers, mapped, rfl⟩ := mapped
    exact .cons made (ih mapped)

private theorem items_none (answers : List (Option (EvidenceItem σ))) :
    (none :: answers).filterMap id = answers.filterMap id := rfl

private theorem items_some (item : EvidenceItem σ) (answers : List (Option (EvidenceItem σ))) :
    (some item :: answers).filterMap id = item :: answers.filterMap id := rfl

theorem Answers.accounted (answers : Answers c index memory query candidates verified) :
    (verified.filter Option.isNone).length + (verified.filterMap id).length =
      candidates.length := by
  induction answers with
  | nil => rfl
  | @cons candidate answer rest rests _ _ ih =>
    cases answer with
    | none =>
      rw [List.filter_cons_of_pos rfl, items_none, List.length_cons, List.length_cons]
      omega
    | some item =>
      rw [List.filter_cons_of_neg (by simp), items_some, List.length_cons, List.length_cons]
      omega

theorem Answers.sublist (answers : Answers c index memory query candidates verified) :
    ((verified.filterMap id).map fun item => ((item.factId : Int), item.contentSpan)).Sublist
      (candidates.map Candidate.identity) := by
  induction answers with
  | nil => exact List.Sublist.refl _
  | @cons candidate answer rest rests made _ ih =>
    cases answer with
    | none => exact ih.cons _
    | some item =>
      have known := verified_verify c index memory query candidate
      rw [made] at known
      cases known with
      | item admitted ranked madeOf =>
        have here : candidate.identity = ((item.factId : Int), item.contentSpan) := by
          have nonneg : 0 ≤ candidate.factId := by
            cases negative : candidate.factId with
            | ofNat n => exact Int.natCast_nonneg n
            | negSucc n =>
              have indexed := admitted.indexed
              rw [negative] at indexed
              cases indexed
          rw [Candidate.identity, madeOf.factId, madeOf.span, Int.toNat_of_nonneg nonneg]
        rw [List.map_cons, items_some, List.map_cons, here]
        exact ih.cons_cons _

theorem Answers.exists_candidate (answers : Answers c index memory query candidates verified)
    {item : EvidenceItem σ} (member : item ∈ verified.filterMap id) :
    ∃ candidate ∈ candidates, ∃ document,
      Admitted index memory query candidate document ∧ 1 ≤ candidate.rank ∧
        ItemOf candidate document item := by
  induction answers with
  | nil => cases member
  | @cons candidate answer rest rests made _ ih =>
    have later (member : item ∈ rests.filterMap id) : ∃ candidate' ∈ candidate :: rest,
        ∃ document, Admitted index memory query candidate' document ∧ 1 ≤ candidate'.rank ∧
          ItemOf candidate' document item := by
      obtain ⟨candidate, among, found⟩ := ih member
      exact ⟨candidate, List.mem_cons_of_mem _ among, found⟩
    cases answer with
    | none => exact later member
    | some first =>
      rcases List.mem_cons.mp member with rfl | member
      · have known := verified_verify c index memory query candidate
        rw [made] at known
        cases known with
        | item admitted ranked madeOf =>
          exact ⟨candidate, List.mem_cons_self, _, admitted, ranked, madeOf⟩
      · exact later member

theorem Answers.distinct (answers : Answers c index memory query candidates verified)
    (nodup : (candidates.map Candidate.identity).Nodup) :
    ((verified.filterMap id).map EvidenceItem.identity).Nodup := by
  have distinct := nodup.sublist answers.sublist
  have cast : (fun item : EvidenceItem σ => ((item.factId : Int), item.contentSpan)) =
      (fun identity : Nat × Option Span => ((identity.1 : Int), identity.2)) ∘
        EvidenceItem.identity := rfl
  rw [cast, ← List.map_map] at distinct
  exact distinct.of_map _

theorem Answers.exists_item (answers : Answers c index memory query candidates verified)
    {candidate : Candidate σ} (among : candidate ∈ candidates)
    (admitted : Admitted index memory query candidate document) :
    ∃ item ∈ verified.filterMap id, ItemOf candidate document item := by
  induction answers with
  | nil => cases among
  | @cons first answer rest rests made _ ih =>
    have later (among : candidate ∈ rest) :
        ∃ item ∈ (answer :: rests).filterMap id, ItemOf candidate document item := by
      obtain ⟨item, member, found⟩ := ih among
      cases answer with
      | none => exact ⟨item, member, found⟩
      | some _ => exact ⟨item, List.mem_cons_of_mem _ member, found⟩
    rcases List.mem_cons.mp among with rfl | among
    · have known := verified_verify c index memory query candidate
      rw [made] at known
      cases known with
      | item admitted' _ madeOf =>
        obtain rfl := admitted.unique admitted'
        exact ⟨_, List.mem_cons_self, madeOf⟩
      | passed refused => exact absurd admitted (refused document)
    · exact later among

def Ranked (index : RoutingIndex) (memory : Store) (query : QueryEnvelope)
    (candidates : List (Candidate σ)) : Prop :=
  ∀ candidate ∈ candidates, ∀ document,
    Admitted index memory query candidate document → 1 ≤ candidate.rank

theorem mapM_of_ranked (ranked : Ranked index memory query candidates) :
    ∃ verified, candidates.mapM (verify c index memory query) = .ok verified := by
  refine exists_mapM_ok fun candidate member => ?_
  have known := verified_verify c index memory query candidate
  generalize verify c index memory query candidate = answer at known
  cases known with
  | item => exact ⟨_, rfl⟩
  | passed => exact ⟨_, rfl⟩
  | unranked admitted unranked => exact absurd (ranked candidate member _ admitted) (by omega)

theorem mapM_of_not_ranked (unranked : ¬ Ranked index memory query candidates) :
    candidates.mapM (verify c index memory query) =
      .error (.valueError "retrieval_rank must be positive") := by
  induction candidates with
  | nil => exact absurd (fun _ member => by cases member) unranked
  | cons candidate rest ih =>
    rw [List.mapM_cons]
    have known := verified_verify c index memory query candidate
    generalize verify c index memory query candidate = answer at known
    have later (here : ∀ document, Admitted index memory query candidate document →
        1 ≤ candidate.rank) : ¬ Ranked index memory query rest := fun ranked =>
      unranked fun other member => by
        rcases List.mem_cons.mp member with rfl | member
        · exact here
        · exact ranked other member
    cases known with
    | unranked => rfl
    | item admitted ranked =>
      rw [ok_bind, ih (later fun _ _ => ranked)]
      rfl
    | passed refused =>
      rw [ok_bind, ih (later fun document admitted => absurd admitted (refused document))]
      rfl

variable {ranking : Ranking σ} {generator : CandidateGenerator σ} {limit : Int}
  {allowScopeFallback : Bool}

def Proposed (generator : CandidateGenerator σ) (index : RoutingIndex) (query : QueryEnvelope)
    (limit : Int) (allowScopeFallback : Bool) (candidate : Candidate σ) : Prop :=
  candidate ∈ (generator.generate query index limit true).candidates ∨
    allowScopeFallback = true ∧ candidate ∈ (generator.generate query index limit false).candidates

theorem get_merged {primary fallback : List (Candidate σ)} {key : Int × Option Span}
    {candidate : Candidate σ} (found : (merged ranking primary fallback).get key = some candidate) :
    candidate.identity = key ∧ (candidate ∈ primary ∨ candidate ∈ fallback) := by
  have step (fallback : List (Candidate σ)) (seen : Dict (Int × Option Span) (Candidate σ))
      (within : List (Candidate σ))
      (keyed : ∀ key candidate, seen.get key = some candidate →
        candidate.identity = key ∧ candidate ∈ within)
      (found : (fallback.foldl (fun merged candidate =>
        match merged.get candidate.identity with
        | none => merged.set candidate.identity candidate
        | some previous =>
          if ranking.above candidate.score previous.score then
            merged.set candidate.identity candidate
          else merged) seen).get key = some candidate) :
      candidate.identity = key ∧ (candidate ∈ within ∨ candidate ∈ fallback) := by
    induction fallback generalizing seen within with
    | nil =>
      obtain ⟨same, member⟩ := keyed key candidate found
      exact ⟨same, .inl member⟩
    | cons next rest ih =>
      rw [List.foldl_cons] at found
      have after := ih _ (within ++ [next]) (fun key candidate held => ?_) found
      · obtain ⟨same, member⟩ := after
        refine ⟨same, ?_⟩
        simp only [List.mem_append, List.mem_cons] at member ⊢
        tauto
      · have put (held : (seen.set next.identity next).get key = some candidate) :
            candidate.identity = key ∧ candidate ∈ within ++ [next] := by
          rw [Dict.get_set] at held
          split at held
          · rename_i same
            obtain rfl := Option.some.inj held
            exact ⟨same, by simp⟩
          · obtain ⟨same, member⟩ := keyed key candidate held
            exact ⟨same, List.mem_append_left _ member⟩
        split at held
        · exact put held
        · split at held
          · exact put held
          · obtain ⟨same, member⟩ := keyed key candidate held
            exact ⟨same, List.mem_append_left _ member⟩
  refine step fallback _ primary (fun key candidate held => ?_) found
  rcases Dict.get_update_eq_some held with member | none_there
  · obtain ⟨one, among, same⟩ := List.mem_map.mp member
    cases same
    exact ⟨rfl, among⟩
  · simp at none_there

variable (ranking generator index query limit allowScopeFallback)

theorem length_touched :
    (touched ranking generator index query limit allowScopeFallback).length ≤ limit.toNat := by
  unfold touched
  exact List.length_take_le _ _

theorem proposed_of_touched :
    ∀ candidate ∈ touched ranking generator index query limit allowScopeFallback,
      Proposed generator index query limit allowScopeFallback candidate := by
  intro candidate member
  have member := List.mem_of_mem_take member
  cases allowScopeFallback with
  | false => exact .inl member
  | true =>
    rw [if_pos rfl] at member
    have member := (ranking.perm _).mem_iff.mp (List.mem_of_mem_take member)
    obtain ⟨⟨key, kept⟩, among, rfl⟩ := List.mem_map.mp member
    have found := (get_merged ((Dict.get_eq_some_iff _ _ _).mpr among)).2
    exact found.imp id fun member => ⟨rfl, member⟩

theorem nodup_touched :
    ((touched ranking generator index query limit allowScopeFallback).map
      Candidate.identity).Nodup := by
  unfold touched
  cases allowScopeFallback with
  | false =>
    simp only [Bool.false_eq_true, if_false]
    exact (generator.generate query index limit true).deduplicated.sublist
      ((List.take_sublist _ _).map _)
  | true =>
    simp only [if_true]
    refine List.Nodup.sublist (((List.take_sublist _ _).trans (List.take_sublist _ _)).map _) ?_
    rw [((ranking.perm _).map Candidate.identity).nodup_iff, List.map_map]
    have keys := (merged ranking (generator.generate query index limit true).candidates
      (generator.generate query index limit false).candidates).nodup
    refine (congrArg List.Nodup (List.map_congr_left fun entry member => ?_)).mpr keys
    exact (get_merged ((Dict.get_eq_some_iff _ _ _).mpr member)).1

variable (memory)

/-- What a route needs: a positive limit and, in the store's own scope, a rank on every candidate
it lets through and a source a citation can carry. -/
def Accepts : Prop :=
  1 ≤ limit ∧ (query.scopeId = memory.scopeId →
    ∀ candidate ∈ touched ranking generator index query limit allowScopeFallback,
      ∀ document, Admitted index memory query candidate document →
        1 ≤ candidate.rank ∧ '\n' ∉ document.source.toList ∧ ']' ∉ document.source.toList)

/-- What a route answers with. -/
structure Law (generator : CandidateGenerator σ) (result : RoutedResult σ) : Prop where
  bounded : result.evidence.items.length ≤ limit
  verified : ∀ item ∈ result.evidence.items, ∃ candidate document,
    Proposed generator index query limit allowScopeFallback candidate ∧
      Admitted index memory query candidate document ∧ ItemOf candidate document item
  distinct : (result.evidence.items.map EvidenceItem.identity).Nodup
  state : result.state = .evidence ↔ result.evidence.items ≠ []
  accounted : result.trace.verifierRejections + result.evidence.items.length =
    result.trace.candidatesTouched

variable {memory}

theorem route_of_foreign (positive : 1 ≤ limit) (foreign : query.scopeId ≠ memory.scopeId) :
    ∃ result, route c ranking generator index memory query limit allowScopeFallback none =
        .ok result ∧
      Law index memory query limit allowScopeFallback generator result := by
  unfold route
  rw [require_of positive, ok_bind, if_pos foreign]
  refine ⟨_, rfl, ?_, ?_, ?_, ?_, ?_⟩
  · simp only [emptyPack, List.length_nil, Nat.cast_zero]
    omega
  · simp [emptyPack]
  · simp [emptyPack]
  · simp [emptyPack]
  · rfl

theorem route_of_local (positive : 1 ≤ limit) (here : query.scopeId = memory.scopeId) :
    route c ranking generator index memory query limit allowScopeFallback none = do
      let candidates := touched ranking generator index query limit allowScopeFallback
      let fallbackUsed := allowScopeFallback &&
        candidates.any fun candidate => candidate.space = "scope_fallback"
      let verified ← candidates.mapM (verify c index memory query)
      let items := verified.filterMap id
      let pack ← EvidencePack.build c query.queryId items
        (items.head?.bind fun item => (memory.get query.scopeId item.factId).generationId)
        (if fallbackUsed then "fallback" else if items.isEmpty then "cold-store" else "bulk") none
        Dict.empty
      return ⟨if items.isEmpty then .abstention else .evidence, pack,
        ⟨query.queryId, generator.channel, limit, candidates.length, candidates.length,
          (verified.filter Option.isNone).length, fallbackUsed,
          if items.isEmpty then "no_verified_candidate" else "verified"⟩⟩ := by
  unfold route
  rw [require_of positive, ok_bind, if_neg (not_not.mpr here)]
  rfl

theorem route_of_accepts
    (accepts : Accepts index memory query ranking generator limit allowScopeFallback) :
    ∃ result, route c ranking generator index memory query limit allowScopeFallback none =
        .ok result ∧
      Law index memory query limit allowScopeFallback generator result := by
  obtain ⟨positive, sound⟩ := accepts
  by_cases here : query.scopeId = memory.scopeId
  swap
  · exact route_of_foreign index query ranking generator limit allowScopeFallback positive here
  have ranked := fun candidate member document admitted =>
    (sound here candidate member document admitted).1
  obtain ⟨verified, mapped⟩ := mapM_of_ranked (c := c) ranked
  have answers := answers_of_mapM mapped
  have distinct := answers.distinct
    (nodup_touched index query ranking generator limit allowScopeFallback)
  have citable : ∀ item ∈ verified.filterMap id, EvidencePack.Citable item := by
    intro item member
    obtain ⟨candidate, among, document, admitted, -, made⟩ := answers.exists_candidate member
    rw [EvidencePack.Citable, made.source]
    exact (sound here candidate among document admitted).2
  rw [route_of_local index query ranking generator limit allowScopeFallback positive here]
  simp only
  rw [mapped, ok_bind]
  obtain ⟨pack, built, sorted⟩ := EvidencePack.build_of_citable (c := c) query.checked.1 distinct
    citable
  rw [built, ok_bind]
  have perm : pack.items.Perm (verified.filterMap id) := sorted ▸ Evidence.perm_sortItems _
  have accounted := answers.accounted
  have few := length_touched index query ranking generator limit allowScopeFallback
  refine ⟨_, rfl, ?_, ?_, ?_, ?_, ?_⟩
  · simp only [perm.length_eq]
    omega
  · intro item member
    obtain ⟨candidate, among, document, admitted, -, made⟩ :=
      answers.exists_candidate (perm.mem_iff.mp member)
    exact ⟨candidate, document, proposed_of_touched index query ranking generator limit
      allowScopeFallback candidate among, admitted, made⟩
  · exact (perm.map _).nodup_iff.mpr distinct
  · have none_iff : pack.items = [] ↔ verified.filterMap id = [] :=
      ⟨fun empty => (empty ▸ perm).nil_eq.symm, fun empty => (empty ▸ perm).eq_nil⟩
    simp only [ne_eq, none_iff]
    cases verified.filterMap id <;> simp
  · simp only [perm.length_eq]
    exact accounted

theorem route_of_not_accepts
    (refused : ¬ Accepts index memory query ranking generator limit allowScopeFallback) :
    ∃ message, route c ranking generator index memory query limit allowScopeFallback none =
      .error (.valueError message) := by
  by_cases positive : 1 ≤ limit
  swap
  · refine ⟨"limit must be a positive integer", ?_⟩
    unfold route
    rw [require_eq_error.mpr ⟨positive, rfl⟩]
    rfl
  by_cases here : query.scopeId = memory.scopeId
  swap
  · exact absurd ⟨positive, fun same => absurd same here⟩ refused
  rw [route_of_local index query ranking generator limit allowScopeFallback positive here]
  simp only
  by_cases ranked : Ranked index memory query
      (touched ranking generator index query limit allowScopeFallback)
  swap
  · exact ⟨_, by rw [mapM_of_not_ranked ranked]; rfl⟩
  obtain ⟨verified, mapped⟩ := mapM_of_ranked (c := c) ranked
  rw [mapped, ok_bind]
  have answers := answers_of_mapM mapped
  have uncitable : ¬ ∀ item ∈ verified.filterMap id, EvidencePack.Citable item := by
    intro citable
    refine refused ⟨positive, fun _ candidate among document admitted => ?_⟩
    obtain ⟨item, member, made⟩ := answers.exists_item among admitted
    have clean := citable item member
    rw [EvidencePack.Citable, made.source] at clean
    exact ⟨ranked candidate among document admitted, clean⟩
  exact ⟨_, by rw [EvidencePack.build_of_not_citable uncitable]; rfl⟩

def noteDocument : RouteDocument :=
  ⟨⟨1, "rain", 0, "s", 1, "log", none, none, none, none, none, none, none⟩, by decide⟩

def noteIndex : RoutingIndex := ⟨[noteDocument], Dict.empty.set 1 noteDocument⟩

def noteQuery : QueryEnvelope := ⟨"q", "rain", 0, "s", 0, by decide⟩

def noteStore : Store := ⟨0, fun _ factId =>
  if factId = 1 then ⟨.present, some 7, none, some 1⟩ else ⟨.notFound, none, none, none⟩⟩

def noteCandidate (rank : Int) : Candidate Nat :=
  ⟨1, 1, "note", rank, "scope_session", none, by simp⟩

def noteGenerator (rank : Int) : CandidateGenerator Nat where
  channel := "note"
  generate _ _ _ _ := ⟨[noteCandidate rank], by simp⟩

theorem touched_note (rank : Int) (allowScopeFallback : Bool) :
    touched Ranking.byScore (noteGenerator rank) noteIndex noteQuery 1 allowScopeFallback =
      [noteCandidate rank] := by
  cases allowScopeFallback with
  | false => rfl
  | true => rfl

theorem admitted_note (rank : Int) :
    Admitted noteIndex noteStore noteQuery (noteCandidate rank) noteDocument where
  indexed := rfl
  scope := rfl
  present := rfl
  version := rfl
  generation := by simp [noteDocument]
  inside := by simp [noteCandidate]

end ProofRay.SemanticRouter
