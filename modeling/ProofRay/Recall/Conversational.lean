/- The conversational cascade (`conversational_recall.py`): rankings of FactIds and what each stage
   keeps of its candidates. -/

import ProofRay.Answer.Routing
import ProofRay.Lib.Enlist
import ProofRay.Lib.Timeline

namespace ProofRay.Conversational

open Answer (QueryEnvelope RoutingIndex)
open Engine (PyError)
open Lib (Dict enlistAll enlistUntil enlistUpTo enlisted_all enlisted_until enlisted_upTo
  filter_flaggedLast flaggedLast flaggedLast_perm length_enlistUntil_le_iff mem_enlistAll
  mem_enlistUntil)
open Lib.Guard
open OpenText (DocumentFields RouteDocument)

structure ConfigFields where
  depth : Nat
  rrfK : Nat
  personQuota : Nat
  personReserve : Nat
  sessionQuota : Nat
  sessionReserve : Nat
  calendarReserve : Nat
  neighborSeedWidth : Nat
  neighborRadius : Nat
  exhaustiveReserve : Nat
  morphologicalReserve : Nat
  personTopicReserve : Nat

/-- `pairs`. -/
def ConfigFields.pairs (c : ConfigFields) : List (Nat × Nat) :=
  [(c.personQuota, c.personReserve), (c.sessionQuota, c.sessionReserve),
    (c.sessionQuota, c.calendarReserve), (c.depth, c.exhaustiveReserve),
    (c.depth, c.morphologicalReserve)]

/-- `ConversationalRecallConfig.__post_init__`. -/
structure ConfigFields.Checked (c : ConfigFields) : Prop where
  positive : 1 ≤ c.depth ∧ 1 ≤ c.rrfK
  reserves : ∀ pair ∈ c.pairs, 1 ≤ pair.1 ∧ pair.2 < pair.1
  neighbors : 1 ≤ c.neighborSeedWidth ∧ c.neighborSeedWidth ≤ c.depth ∧ 1 ≤ c.neighborRadius
  personTopic : c.personTopicReserve < c.depth

/-- `ConversationalRecallConfig`. -/
structure ConversationalRecallConfig extends ConfigFields where
  checked : toConfigFields.Checked

/-- The surfaces that the cascade fuses, for a query and the eligible documents, and what it
observes of a text. Each of them may raise. -/
structure Surfaces (σ : Type) where
  bm25 : List RouteDocument → String → Except PyError (List Nat)        -- the rows with a term
  hpps : Nat → List RouteDocument → String → Except PyError (List Nat)  -- the admissions
  cavity : Nat → List RouteDocument → String → Except PyError (List Nat)
  -- `CausalWeaveGenerator(boundary_fraction=0.0).generate(.., same_session=False)`
  weave : QueryEnvelope → RoutingIndex → Nat → Except PyError (List Nat)
  -- `compile_explicit_calendar_interval`: the first and the last day
  interval : String → List Nat → Except PyError (Option (Nat × Nat))
  exhaustive : String → Except PyError (Option String)     -- `observe_exhaustive_recall`
  lexical : String → Bool → List String                    -- `observe_raw_text(..).lexical`
  gauge : String → List String                             -- `observe_gauge_lexical`
  address : String → List String                           -- the address atoms of the query's plan
  fusion : Nat → List Nat → σ                              -- the sum of `1.0 / (k + rank)`
  -- a score, of the population, the frequencies of the shared terms and the number of all
  pressure : Nat → List Nat → Nat → σ

/-- `10 ** 18`. -/
def sentinel : Nat := 10 ^ 18

/-- `rank.get(value, sentinel)`. -/
def placeIn (order : List Nat) (value : Nat) : Nat :=
  if value ∈ order then order.idxOf value + 1 else sentinel

section

variable {σ : Type} [LinearOrder σ]

/-- `reciprocal_rank_fusion`. -/
def reciprocalRankFusion (fusion : Nat → List Nat → σ) (orders : List (List Nat)) (k : Nat) :
    Except PyError (List Nat) := do
  require (1 ≤ k ∧ orders ≠ [])
    (.valueError "RRF needs a positive constant and at least one ranking")
  require (∀ order ∈ orders, order.Nodup) (.valueError "RRF rankings must be unique")
  let key value := toLex (OrderDual.toDual
      (fusion k ((orders.filter fun order => value ∈ order).map fun order => placeIn order value)),
    toLex ((orders.map fun order => placeIn order value).min?.getD sentinel,
      toLex (orders.map fun order => placeIn order value, value)))
  return orders.flatten.dedup.insertionSort fun a b => key a ≤ key b

end

/-- `protected_rank_merge`. -/
def protectedRankMerge (primary reserveOrder : List Nat) (quota reserve : Nat) :
    Except PyError (List Nat) := do
  require (1 ≤ quota ∧ reserve < quota ∧ primary.Nodup ∧ reserveOrder.Nodup)
    (.valueError "protected merge requires unique rankings and a fitting reserve")
  return enlistAll (enlistUpTo quota (primary.take (quota - reserve)) reserveOrder)
    (primary ++ reserveOrder)

/-- `{document.fact_id: document for document in documents}`. -/
def byId (documents : List RouteDocument) : Dict Nat RouteDocument :=
  Dict.empty.update (documents.map fun document => (document.factId, document))

section

variable (lexical : String → Bool → List String)

/-- `_matched_speaker_ids`. -/
def matchedSpeakerIds (query : String) (documents : List RouteDocument) : List Nat :=
  (documents.filter fun document => document.speaker.any fun speaker =>
    (lexical query true).any fun term => term ∈ lexical speaker false).map fun d => d.factId

/-- `stable_speaker_partition`. -/
def stableSpeakerPartition (ranking : List Nat) (query : String) (documents : List RouteDocument) :
    Except PyError (List Nat) := do
  require ranking.Nodup (.valueError "speaker partition requires a unique ranking")
  require (∀ id ∈ ranking, id ∈ documents.map fun d => d.factId)
    (.valueError "speaker partition lacks an authoritative document")
  let matched := matchedSpeakerIds lexical query documents
  if matched = [] then return ranking
  return flaggedLast (fun id => decide (id ∉ matched)) ranking

end

/-- `(sequence is None, sequence or 2 ** 63 - 1, fact_id)`. -/
def chronology (d : RouteDocument) : Bool ×ₗ Nat ×ₗ Nat :=
  toLex (d.sequence.isNone, toLex (d.sequence.getD (2 ^ 63 - 1), d.factId))

def places (documents : List RouteDocument) : List (RouteDocument × String × Int) :=
  (Dict.gather (fun d : RouteDocument => d.sessionId) documents).items.flatMap fun session =>
    (session.2.insertionSort fun a b => chronology a ≤ chronology b).zipIdx.map fun e =>
      (e.1, session.1, (e.2 : Int))

def neighbours (documents : List RouteDocument) (seeds : List Nat) (radius : Nat) : List Nat :=
  let positions : Dict Nat (String × Int) :=
    Dict.empty.update ((places documents).map fun p => (p.1.factId, p.2))
  let byPosition : Dict (String × Int) Nat :=
    Dict.empty.update ((places documents).map fun p => (p.2, p.1.factId))
  (List.range radius).flatMap fun step => seeds.flatMap fun id =>
    match positions.get id with
    | none => []
    | some (session, position) =>
      [position - (step + 1), position + (step + 1)].filterMap fun p => byPosition.get (session, p)

/-- `expand_session_neighbors`. Both of its loops end once an added value brings the selection to
`max_results`. -/
def expandSessionNeighbors (ranking : List Nat) (documents : List RouteDocument)
    (seedWidth radius maxResults : Nat) : Except PyError (List Nat) := do
  require (1 ≤ min seedWidth (min radius maxResults) ∧ seedWidth ≤ maxResults ∧ ranking.Nodup)
    (.valueError "invalid session-neighbor expansion")
  require (∀ id ∈ ranking, id ∈ documents.map fun d => d.factId)
    (.valueError "neighbor expansion lacks an authoritative document")
  let seeds := ranking.take seedWidth
  return enlistUntil maxResults seeds (neighbours documents seeds radius ++ ranking)

/-- `ConversationalRecallTrace`. -/
structure ConversationalRecallTrace where
  eligibleFactIds : List Nat
  calendarInterval : Option (Nat × Nat)
  calendarApplied : Bool
  exhaustiveObservation : Option String
  exhaustiveApplied : Bool
  uniqueMorphologyApplied : Bool
  personTopicApplied : Bool
  finalOrder : List Nat

section

variable {σ : Type} [LinearOrder σ] (s : Surfaces σ) (config : ConversationalRecallConfig)

/-- The proposal of `_person_topic_order`: what the named speakers said of the topic. -/
def personTopicProposal (cavity : List Nat) (query : String) (documents : List RouteDocument) :
    List Nat :=
  let speakerTerms (document : RouteDocument) := s.lexical (document.speaker.getD "") false
  let matched := (byId documents).items.filter fun item =>
    (s.lexical query true).any fun term => term ∈ speakerTerms item.2
  if matched = [] then []
  else
    let topic := (s.address query).dedup.filter fun term =>
      matched.all fun item => term ∉ speakerTerms item.2
    if topic = [] then []
    else
      let overlap id := ((byId documents).get id).elim 0 fun document =>
        (topic.filter fun term => term ∈ s.lexical document.text false).length
      (cavity.filter fun id => id ∈ matched.map Prod.fst ∧ 0 < overlap id).insertionSort
        fun a b => overlap b ≤ overlap a

/-- `_person_topic_order`. -/
def personTopicOrder (base cavity : List Nat) (query : String) (documents : List RouteDocument)
    (reserve : Nat) : Except PyError (List Nat × Bool) := do
  if reserve = 0 then return (base, false)
  let observation ← s.exhaustive query
  let proposal := personTopicProposal s cavity query documents
  if observation = none ∨ proposal = [] then return (base, false)
  let merged ← protectedRankMerge base proposal (max base.length (reserve + 1)) reserve
  return (merged, true)

/-- `_morphological_proposal`, with the gauge or the lexical terms of a text. -/
def morphologicalProposal (observe : String → List String) (query : String)
    (documents : List RouteDocument) : List Nat :=
  let items := (byId documents).items
  let frequency term := items.countP fun item => term ∈ observe item.2.text
  let positions : Dict Nat Nat := Dict.empty.update ((documents.insertionSort fun a b =>
    chronology a ≤ chronology b).zipIdx.map fun e => (e.1.factId, e.2))
  let scored := items.filterMap fun item =>
    let overlap := (observe query).dedup.filter fun term => term ∈ observe item.2.text
    if overlap = [] then none
    else some (s.pressure (max 1 items.length) (overlap.map frequency)
      (observe item.2.text).dedup.length, item.1)
  let key (e : σ × Nat) :=
    toLex (OrderDual.toDual e.1, toLex ((positions.get e.2).getD 0, e.2))
  (scored.insertionSort fun a b => key a ≤ key b).map Prod.snd

def exhaustiveOrder (context cavity : List Nat) (query : String) (documents : List RouteDocument)
    (observation : Option String) : Except PyError (List Nat × Bool) := do
  if observation = none then return (context, false)
  let namedCavity ← stableSpeakerPartition s.lexical cavity query documents
  if matchedSpeakerIds s.lexical query documents = [] then return (context, false)
  let merged ← protectedRankMerge context namedCavity config.depth config.exhaustiveReserve
  return (merged, true)

def morphologicalOrder (personTopic : List Nat) (query : String) (documents : List RouteDocument) :
    Except PyError (List Nat × Bool) := do
  let gauge := morphologicalProposal s s.gauge query documents
  let surface := morphologicalProposal s (fun text => s.lexical text false) query documents
  let surfaceHead := surface.take config.morphologicalReserve
  if ∀ id ∈ gauge.take config.morphologicalReserve, id ∈ surfaceHead then
    return (personTopic, false)
  let merged ← protectedRankMerge personTopic gauge config.depth config.morphologicalReserve
  return (merged, true)

/-- The order that is widened: the fused surfaces, the named speakers, and the sessions that the
weave or the calendar brings forward. -/
def addressedOrder (query : QueryEnvelope) (documents : List RouteDocument)
    (sessionOf : Nat → Option String) (fused cavity : List Nat) :
    Except PyError (List Nat × Option (Nat × Nat) × Bool) := do
  let semanticCavity ← reciprocalRankFusion s.fusion
    [fused.take config.depth, cavity.take config.depth] config.rrfK
  let speakerOrder ← stableSpeakerPartition s.lexical cavity query.text documents
  let person ← protectedRankMerge semanticCavity speakerOrder config.personQuota
    config.personReserve
  let localIndex ← RoutingIndex.make documents
  let sessionOrder ← s.weave query localIndex config.depth
  let personSession ← protectedRankMerge person sessionOrder config.sessionQuota
    config.sessionReserve
  let interval ← s.interval query.text (documents.filterMap fun d => d.eventTime)
  let selected := (documents.filter fun d => d.eventTime.any fun day =>
    interval.any fun days => days.1 ≤ day ∧ day ≤ days.2).map fun d => d.sessionId
  if selected = [] then return (personSession, interval, false)
  let calendarOrder := flaggedLast (fun id => (sessionOf id).all fun session =>
    decide (session ∉ selected)) person
  let addressed ← protectedRankMerge person calendarOrder config.sessionQuota config.calendarReserve
  return (addressed, interval, true)

/-- `rank` over some eligible documents, with the sessions of the index. -/
def cascade (query : QueryEnvelope) (documents : List RouteDocument)
    (sessionOf : Nat → Option String) :
    Except PyError (List Nat × ConversationalRecallTrace) := do
  let eligible := (documents.map fun d => d.factId).insertionSort (· ≤ ·)
  if documents = [] then return ([], ⟨[], none, false, none, false, false, false, []⟩)
  let bm25 ← s.bm25 documents query.text
  let hpps ← s.hpps config.depth documents query.text
  let fused ← reciprocalRankFusion s.fusion [bm25.take config.depth, hpps.take config.depth]
    config.rrfK
  let cavity ← s.cavity config.depth documents query.text
  let (addressed, interval, calendarApplied) ←
    addressedOrder s config query documents sessionOf fused cavity
  let context ← expandSessionNeighbors addressed documents config.neighborSeedWidth
    config.neighborRadius config.depth
  let observation ← s.exhaustive query.text
  let (exhaustive, exhaustiveApplied) ←
    exhaustiveOrder s config context cavity query.text documents observation
  let (personTopic, personTopicApplied) ←
    personTopicOrder s exhaustive cavity query.text documents config.personTopicReserve
  let (final, uniqueMorphology) ← morphologicalOrder s config personTopic query.text documents
  return (final, ⟨eligible, interval, calendarApplied, observation, exhaustiveApplied,
    uniqueMorphology, personTopicApplied, final⟩)

/-- `ConversationalRecallGenerator.rank`. -/
def rank (query : QueryEnvelope) (index : RoutingIndex) (sameSession : Bool) :
    Except PyError (List Nat × ConversationalRecallTrace) :=
  cascade s config query (index.eligible query sameSession) fun id =>
    (index.byId.get id).map fun document => document.sessionId

end

theorem fusion_law {σ : Type} [LinearOrder σ] {fusion : Nat → List Nat → σ}
    {orders : List (List Nat)} {k : Nat} {l : List Nat}
    (ran : reciprocalRankFusion fusion orders k = .ok l) :
    l.Nodup ∧ ∀ v, v ∈ l ↔ ∃ order ∈ orders, v ∈ order := by
  simp only [reciprocalRankFusion, bind_eq_ok, pure_eq_ok] at ran
  obtain ⟨-, -, -, -, rfl⟩ := ran
  refine ⟨(List.perm_insertionSort _ _).nodup_iff.mpr (List.nodup_dedup _), fun v => ?_⟩
  rw [(List.perm_insertionSort _ _).mem_iff, List.mem_dedup, List.mem_flatten]

theorem merge_law {primary reserveOrder : List Nat} {quota reserve : Nat} {l : List Nat}
    (ran : protectedRankMerge primary reserveOrder quota reserve = .ok l) :
    l.Nodup ∧ (∀ v, v ∈ l ↔ v ∈ primary ∨ v ∈ reserveOrder) ∧
      primary.take (quota - reserve) <+: l := by
  simp only [protectedRankMerge, bind_eq_ok, pure_eq_ok, require_eq_ok] at ran
  obtain ⟨-, ⟨-, -, unique, -⟩, rfl⟩ := ran
  have upTo := enlisted_upTo quota (primary.take (quota - reserve)) reserveOrder
  have all := enlisted_all (enlistUpTo quota (primary.take (quota - reserve)) reserveOrder)
    (primary ++ reserveOrder)
  refine ⟨all.nodup (upTo.nodup (unique.sublist (List.take_sublist _ _))), fun v => ?_,
    upTo.start.trans all.start⟩
  constructor
  · intro member
    rcases all.source v member with early | late
    · exact (upTo.source v early).imp_left List.mem_of_mem_take
    · exact List.mem_append.mp late
  · exact fun either => mem_enlistAll (List.mem_append.mpr either)

theorem partition_law {lexical : String → Bool → List String} {ranking : List Nat} {query : String}
    {documents : List RouteDocument} {l : List Nat}
    (ran : stableSpeakerPartition lexical ranking query documents = .ok l) :
    l.Perm ranking ∧ ∀ flag, l.filter (fun id => decide (id ∉ matchedSpeakerIds lexical query
      documents) == flag) = ranking.filter fun id => decide (id ∉ matchedSpeakerIds lexical query
      documents) == flag := by
  simp only [stableSpeakerPartition, bind_eq_ok, require_eq_ok] at ran
  obtain ⟨-, -, -, -, ran⟩ := ran
  split_ifs at ran
  · obtain rfl := pure_eq_ok.mp ran
    exact ⟨List.Perm.refl _, fun _ => rfl⟩
  · obtain rfl := pure_eq_ok.mp ran
    exact ⟨flaggedLast_perm _ _, filter_flaggedLast _ _⟩

/-- What a widened ranking should be: without duplicates, within the bound, beginning with the
seeds, and with every ranked id unless it is full. -/
structure Widened (ranking seeds : List Nat) (maxResults : Nat) (l : List Nat) : Prop where
  nodup : l.Nodup
  bounded : l.length ≤ maxResults
  seeded : seeds <+: l
  complete : ∀ id ∈ ranking, id ∈ l ∨ l.length = maxResults

def Overfull (ranking : List Nat) (documents : List RouteDocument)
    (seedWidth radius maxResults : Nat) : Prop :=
  (ranking.take seedWidth).length = maxResults ∧
    ∃ id ∈ neighbours documents (ranking.take seedWidth) radius ++ ranking,
      id ∉ ranking.take seedWidth

section

variable {ranking : List Nat} {documents : List RouteDocument} {seedWidth radius maxResults : Nat}
  {l : List Nat}

theorem of_expandSessionNeighbors
    (ran : expandSessionNeighbors ranking documents seedWidth radius maxResults = .ok l) :
    (seedWidth ≤ maxResults ∧ ranking.Nodup ∧ ∀ id ∈ ranking, id ∈ documents.map fun d => d.factId)
      ∧ enlistUntil maxResults (ranking.take seedWidth)
        (neighbours documents (ranking.take seedWidth) radius ++ ranking) = l := by
  simp only [expandSessionNeighbors, bind_eq_ok, pure_eq_ok, require_eq_ok] at ran
  obtain ⟨-, ⟨-, within, unique⟩, -, known, same⟩ := ran
  exact ⟨⟨within, unique, known⟩, same⟩

theorem expand_law
    (ran : expandSessionNeighbors ranking documents seedWidth radius maxResults = .ok l) :
    Widened ranking (ranking.take seedWidth) maxResults l ↔
      ¬Overfull ranking documents seedWidth radius maxResults := by
  obtain ⟨⟨within, unique, -⟩, rfl⟩ := of_expandSessionNeighbors ran
  have short : (ranking.take seedWidth).length ≤ maxResults := by
    rw [List.length_take]
    omega
  have grown := enlisted_until maxResults (ranking.take seedWidth)
    (neighbours documents (ranking.take seedWidth) radius ++ ranking)
  rw [Overfull, ← length_enlistUntil_le_iff _ short]
  refine ⟨fun widened => widened.bounded, fun bounded => {
    nodup := grown.nodup (unique.sublist (List.take_sublist _ _))
    bounded
    seeded := grown.start
    complete := fun id member => mem_enlistUntil (List.mem_append_right _ member) }⟩

end

/-- A ranking of some of the documents, each once. -/
structure Ranking (documents : List RouteDocument) (l : List Nat) : Prop where
  nodup : l.Nodup
  known : ∀ id ∈ l, id ∈ documents.map fun d => d.factId

section

variable {documents : List RouteDocument} {l : List Nat}

variable {query : String} {r : List Nat × Bool} {id : Nat}

theorem mem_byId {document : RouteDocument} (member : (id, document) ∈ (byId documents).items) :
    document ∈ documents ∧ document.factId = id := by
  rcases Dict.get_update_eq_some ((Dict.get_eq_some_iff _ _ _).mpr member) with there | none
  · obtain ⟨d, inside, same⟩ := List.mem_map.mp there
    cases same
    exact ⟨inside, rfl⟩
  · cases none

theorem known_of_mem_byId {item : Nat × RouteDocument} (member : item ∈ (byId documents).items) :
    item.1 ∈ documents.map fun d => d.factId := by
  obtain ⟨inside, same⟩ := mem_byId member
  exact List.mem_map.mpr ⟨item.2, inside, same⟩

theorem mem_places {p : RouteDocument × String × Int} (member : p ∈ places documents) :
    p.1 ∈ documents := by
  obtain ⟨session, inItems, inSession⟩ := List.mem_flatMap.mp member
  obtain ⟨e, placed, rfl⟩ := List.mem_map.mp inSession
  have sorted := (List.perm_insertionSort _ _).mem_iff.mp (List.fst_mem_of_mem_zipIdx placed)
  have found := (Dict.get_eq_some_iff _ _ _).mpr inItems
  rw [Dict.get_gather] at found
  split_ifs at found
  rw [← Option.some.inj found] at sorted
  exact List.mem_of_mem_filter sorted

theorem known_of_mem_neighbours {seeds : List Nat} {radius id : Nat}
    (member : id ∈ neighbours documents seeds radius) : id ∈ documents.map fun d => d.factId := by
  obtain ⟨step, -, inStep⟩ := List.mem_flatMap.mp member
  obtain ⟨seed, -, beside⟩ := List.mem_flatMap.mp inStep
  split at beside
  · cases beside
  · obtain ⟨p, -, found⟩ := List.mem_filterMap.mp beside
    rcases Dict.get_update_eq_some found with there | none
    · obtain ⟨p', placed, same⟩ := List.mem_map.mp there
      rw [← (Prod.mk.inj same).2]
      exact List.mem_map_of_mem (mem_places placed)
    · cases none

theorem ranking_of_merge {primary reserveOrder : List Nat} {quota reserve : Nat}
    (first : ∀ id ∈ primary, id ∈ documents.map fun d => d.factId)
    (second : ∀ id ∈ reserveOrder, id ∈ documents.map fun d => d.factId)
    (ran : protectedRankMerge primary reserveOrder quota reserve = .ok l) :
    Ranking documents l := by
  obtain ⟨nodup, union, -⟩ := merge_law ran
  exact ⟨nodup, fun id member => ((union id).mp member).elim (first id) (second id)⟩

theorem ranking_of_expand {ranking : List Nat} {seedWidth radius maxResults : Nat}
    (ran : expandSessionNeighbors ranking documents seedWidth radius maxResults = .ok l) :
    Ranking documents l := by
  obtain ⟨⟨-, unique, known⟩, rfl⟩ := of_expandSessionNeighbors ran
  have grown := enlisted_until maxResults (ranking.take seedWidth)
    (neighbours documents (ranking.take seedWidth) radius ++ ranking)
  refine ⟨grown.nodup (unique.sublist (List.take_sublist _ _)), fun id member => ?_⟩
  rcases grown.source id member with seed | added
  · exact known id (List.mem_of_mem_take seed)
  · exact (List.mem_append.mp added).elim known_of_mem_neighbours (known id)

theorem known_of_partition {lexical : String → Bool → List String} {ranking : List Nat}
    (ran : stableSpeakerPartition lexical ranking query documents = .ok l) :
    ∀ id ∈ l, id ∈ documents.map fun d => d.factId := by
  intro id member
  have inRanking := (partition_law ran).1.mem_iff.mp member
  simp only [stableSpeakerPartition, bind_eq_ok, require_eq_ok] at ran
  obtain ⟨-, -, -, known, -⟩ := ran
  exact known id inRanking

variable {σ : Type} [LinearOrder σ] {s : Surfaces σ} {config : ConversationalRecallConfig}

theorem known_of_mem_morphologicalProposal {observe : String → List String}
    (member : id ∈ morphologicalProposal s observe query documents) :
    id ∈ documents.map fun d => d.factId := by
  obtain ⟨e, sorted, rfl⟩ := List.mem_map.mp member
  have scored := (List.perm_insertionSort _ _).mem_iff.mp sorted
  obtain ⟨item, inItems, made⟩ := List.mem_filterMap.mp scored
  dsimp only at made
  split_ifs at made
  cases made
  exact known_of_mem_byId inItems

omit [LinearOrder σ] in
theorem known_of_mem_personTopicProposal {cavity : List Nat}
    (member : id ∈ personTopicProposal s cavity query documents) :
    id ∈ documents.map fun d => d.factId := by
  unfold personTopicProposal at member
  dsimp only at member
  split_ifs at member
  · cases member
  · cases member
  · have proposed := (List.perm_insertionSort _ _).mem_iff.mp member
    obtain ⟨inMatched, -⟩ := of_decide_eq_true (List.mem_filter.mp proposed).2
    obtain ⟨item, matched, rfl⟩ := List.mem_map.mp inMatched
    exact known_of_mem_byId (List.mem_of_mem_filter matched)

omit [LinearOrder σ] in
theorem ranking_of_personTopic {base cavity : List Nat} {reserve : Nat}
    (ranked : Ranking documents base)
    (ran : personTopicOrder s base cavity query documents reserve = .ok r) :
    Ranking documents r.1 := by
  unfold personTopicOrder at ran
  split_ifs at ran
  · obtain rfl := pure_eq_ok.mp ran
    exact ranked
  obtain ⟨observation, -, ran⟩ := bind_eq_ok.mp ran
  dsimp only at ran
  split_ifs at ran
  · obtain rfl := pure_eq_ok.mp ran
    exact ranked
  obtain ⟨merged, combined, made⟩ := bind_eq_ok.mp ran
  obtain rfl := pure_eq_ok.mp made
  exact ranking_of_merge ranked.known (fun _ => known_of_mem_personTopicProposal) combined

omit [LinearOrder σ] in
theorem ranking_of_exhaustive {context cavity : List Nat} {observation : Option String}
    (ranked : Ranking documents context)
    (ran : exhaustiveOrder s config context cavity query documents observation = .ok r) :
    Ranking documents r.1 := by
  unfold exhaustiveOrder at ran
  split at ran
  · obtain rfl := pure_eq_ok.mp ran
    exact ranked
  obtain ⟨named, partitioned, ran⟩ := bind_eq_ok.mp ran
  split_ifs at ran
  · obtain rfl := pure_eq_ok.mp ran
    exact ranked
  obtain ⟨merged, combined, made⟩ := bind_eq_ok.mp ran
  obtain rfl := pure_eq_ok.mp made
  exact ranking_of_merge ranked.known (known_of_partition partitioned) combined

theorem ranking_of_morphological {personTopic : List Nat} (ranked : Ranking documents personTopic)
    (ran : morphologicalOrder s config personTopic query documents = .ok r) :
    Ranking documents r.1 := by
  unfold morphologicalOrder at ran
  dsimp only at ran
  split_ifs at ran
  · obtain rfl := pure_eq_ok.mp ran
    exact ranked
  obtain ⟨merged, combined, made⟩ := bind_eq_ok.mp ran
  obtain rfl := pure_eq_ok.mp made
  exact ranking_of_merge ranked.known (fun _ => known_of_mem_morphologicalProposal) combined

theorem ranking_of_cascade {query : QueryEnvelope} {sessionOf : Nat → Option String}
    {r : List Nat × ConversationalRecallTrace}
    (ran : cascade s config query documents sessionOf = .ok r) : Ranking documents r.1 := by
  unfold cascade at ran
  dsimp only at ran
  split_ifs at ran
  · obtain rfl := pure_eq_ok.mp ran
    exact ⟨List.nodup_nil, fun _ none => by cases none⟩
  simp only [bind_eq_ok] at ran
  obtain ⟨bm25, -, hpps, -, fused, -, cavity, -, addressed, -, context, expanded, observation, -,
    exhaustive, reserved, personTopic, proposed, final, merged, made⟩ := ran
  obtain rfl := pure_eq_ok.mp made
  have contextual := ranking_of_expand expanded
  have complete := ranking_of_exhaustive contextual reserved
  exact ranking_of_morphological (ranking_of_personTopic complete proposed) merged

end

section

variable {documents documents' : List RouteDocument}

theorem inOrder_congr (unique : (documents.map fun d => d.factId).Nodup)
    (perm : documents.Perm documents') :
    RoutingIndex.inOrder documents = RoutingIndex.inOrder documents' := by
  have sorted (l : List RouteDocument) :
      (RoutingIndex.inOrder l).Pairwise fun a b => a.factId ≤ b.factId :=
    List.pairwise_insertionSort _ l
  have back (l : List RouteDocument) : (RoutingIndex.inOrder l).Perm l :=
    List.perm_insertionSort _ l
  refine ((back documents).trans (perm.trans (back documents').symm)).eq_of_pairwise ?_
    (sorted documents) (sorted documents')
  intro a b here there below above
  exact List.inj_on_of_nodup_map unique ((back documents).mem_iff.mp here)
    (perm.mem_iff.mpr ((back documents').mem_iff.mp there)) (Nat.le_antisymm below above)

theorem get_update_congr (unique : (documents.map fun d => d.factId).Nodup)
    (perm : documents.Perm documents') (id : Nat) :
    (Dict.empty.update (documents.map fun d => (d.factId, d))).get id =
      (Dict.empty.update (documents'.map fun d => (d.factId, d))).get id := by
  have same := perm.map fun d => d.factId
  refine Option.ext fun d => ?_
  have first := Dict.get_update_keyed (d := Dict.empty) unique (k := id) (b := d)
  have second := Dict.get_update_keyed (d := Dict.empty) (same.nodup_iff.mp unique) (k := id)
    (b := d)
  rw [perm.mem_iff, same.mem_iff] at first
  exact first.trans second.symm

theorem rank_congr {σ : Type} [LinearOrder σ] (s : Surfaces σ)
    (config : ConversationalRecallConfig) (query : QueryEnvelope) (sameSession : Bool)
    (perm : documents.Perm documents') :
    (RoutingIndex.make documents >>= fun index => rank s config query index sameSession) =
      RoutingIndex.make documents' >>= fun index => rank s config query index sameSession := by
  rw [RoutingIndex.make_eq, RoutingIndex.make_eq]
  have same := (perm.map fun d => d.factId).nodup_iff
  by_cases unique : (documents.map fun d => d.factId).Nodup
  · rw [if_pos unique, if_pos (same.mp unique), ok_bind, ok_bind, rank, rank,
      RoutingIndex.eligible, RoutingIndex.eligible, inOrder_congr unique perm]
    simp only [get_update_congr unique perm]
  · rw [if_neg unique, if_neg (mt same.mpr unique)]

end

/-- The fusion is a permutation of the union of its rankings, the merge one that begins with the
protected part of the first, the partition one that keeps both orders; the order of the cascade is
a ranking of eligible documents, in whatever order the documents are given; and the widened ranking
is what it should be exactly when the seeds are not overfull. -/
theorem stages_conserve {σ : Type} [LinearOrder σ] (s : Surfaces σ) :
    (∀ orders k l, reciprocalRankFusion s.fusion orders k = .ok l →
      l.Nodup ∧ ∀ v, v ∈ l ↔ ∃ order ∈ orders, v ∈ order) ∧
    (∀ primary reserveOrder quota reserve l,
      protectedRankMerge primary reserveOrder quota reserve = .ok l →
        l.Nodup ∧ (∀ v, v ∈ l ↔ v ∈ primary ∨ v ∈ reserveOrder) ∧
          primary.take (quota - reserve) <+: l) ∧
    (∀ ranking query documents l,
      stableSpeakerPartition s.lexical ranking query documents = .ok l →
        l.Perm ranking ∧ ∀ flag,
          l.filter (fun id => decide (id ∉ matchedSpeakerIds s.lexical query documents) == flag) =
            ranking.filter fun id =>
              decide (id ∉ matchedSpeakerIds s.lexical query documents) == flag) ∧
    (∀ ranking documents seedWidth radius maxResults l,
      expandSessionNeighbors ranking documents seedWidth radius maxResults = .ok l →
        (Widened ranking (ranking.take seedWidth) maxResults l ↔
          ¬Overfull ranking documents seedWidth radius maxResults)) ∧
    (∀ config query index sameSession r, rank s config query index sameSession = .ok r →
      Ranking (index.eligible query sameSession) r.1) ∧
    (∀ config query sameSession (documents documents' : List RouteDocument),
      documents.Perm documents' →
        (RoutingIndex.make documents >>= fun index => rank s config query index sameSession) =
          RoutingIndex.make documents' >>= fun index => rank s config query index sameSession) :=
  ⟨fun _ _ _ => fusion_law, fun _ _ _ _ _ => merge_law, fun _ _ _ _ => partition_law,
    fun _ _ _ _ _ _ => expand_law, fun _ _ _ _ _ => ranking_of_cascade,
    fun config query sameSession _ _ => rank_congr s config query sameSession⟩

def turnFields (factId : Nat) : DocumentFields :=
  ⟨factId, "Hello.", 0, "s", 1, "chat", none, some factId, none, none, none, none, none⟩

theorem turnFields_checked : (turnFields 1).Checked ∧ (turnFields 2).Checked := by
  decide

def turns : List RouteDocument :=
  [⟨turnFields 1, turnFields_checked.1⟩, ⟨turnFields 2, turnFields_checked.2⟩]

def blind : Surfaces Nat :=
  ⟨fun _ _ => .ok [], fun _ _ _ => .ok [], fun _ _ _ => .ok [], fun _ _ _ => .ok [],
    fun _ _ => .ok none, fun _ => .ok none, fun _ _ => [], fun _ => [], fun _ => [], fun _ _ => 0,
    fun _ _ _ => 0⟩

theorem expand_turns : expandSessionNeighbors [1] turns 1 1 2 = .ok [1, 2] := by
  decide

theorem stages_conserve_turns : Widened [1] [1] 2 [1, 2] ↔ ¬Overfull [1] turns 1 1 2 :=
  (stages_conserve blind).2.2.2.1 [1] turns 1 1 2 [1, 2] expand_turns

theorem expand_full : expandSessionNeighbors [1] turns 1 1 1 = .ok [1, 2] := by
  decide

theorem not_expand_atMost : ¬∀ ranking documents seedWidth radius maxResults l,
    expandSessionNeighbors ranking documents seedWidth radius maxResults = .ok l →
      l.length ≤ maxResults := by
  intro bounded
  have short := bounded [1] turns 1 1 1 [1, 2] expand_full
  revert short
  decide

end ProofRay.Conversational
