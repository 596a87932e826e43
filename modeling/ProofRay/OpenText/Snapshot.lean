/- Snapshots under change: what the batch of a bundle attests, and that facts read as the snapshot
   with documents put in or taken out. -/

import ProofRay.OpenText.Reading
import ProofRay.Sidecar.Holdings

namespace ProofRay.OpenText

open Engine (Crypto)
open Lib (Dict)
open Lib.Guard
open Sidecar
open OpenTextMemory (mergeDocuments observeAll putIntent mergeIntents)

/-- An attested fact that carries a document, under those of the observed intents that name it. -/
structure Bears (scope : String) (observed : List SidecarObservedIntent) (d : RouteDocument)
    (item : AttestedSidecarFact) : Prop where
  factId : item.fact.factId = d.factId
  predicate : item.fact.predicate = "surface_document"
  scope : item.fact.scope = scope
  subject : item.fact.subject = d.source
  value : item.fact.value = d.text
  observedAt : item.fact.observedAt = clockOf d
  eventTime : item.fact.eventTime = d.eventTime.getD (clockOf d)
  version : item.fact.version = d.version
  metadata : ∃ m, item.routeMetadata = some m ∧ m.toRouteFields = routeFields d
    ((observed.filter fun i => d.factId ∈ i.factIds).insertionSort
      fun a b => a.intentId ≤ b.intentId)

section

variable {c : Crypto} {scope purpose reference bundleId : String}
  {observed : List SidecarObservedIntent} {documents : List RouteDocument}
  {authority : SidecarAuthority}

variable {place : RouteDocument × Nat × Nat} {offset : Nat}

theorem mem_places (member : place ∈ places offset documents) : place.1 ∈ documents := by
  induction documents generalizing offset with
  | nil => cases member
  | cons d rest ih =>
    rcases List.mem_cons.mp member with rfl | later
    · exact List.mem_cons_self
    · exact List.mem_cons_of_mem d (ih later)

theorem exists_place {d : RouteDocument} (member : d ∈ documents) :
    ∃ span, (d, span) ∈ places offset documents := by
  induction documents generalizing offset with
  | nil => cases member
  | cons e rest ih =>
    rcases List.mem_cons.mp member with rfl | later
    · exact ⟨_, List.mem_cons_self⟩
    · obtain ⟨span, placed⟩ := ih later
      exact ⟨span, List.mem_cons_of_mem _ placed⟩

theorem bears_of_compileFact {source : CausalSourceEnvelope} {declaration : SidecarDeclaration}
    {compiled : Option AttestedSidecarFact}
    (declared : declareDocument scope purpose reference observed place = .ok declaration)
    (made : compileFact c authority source declaration = .ok compiled) :
    ∃ item, compiled = some item ∧ Bears scope observed place.1 item := by
  simp only [declareDocument, bind_eq_ok, checked_eq_ok, pure_eq_ok] at declared
  obtain ⟨lifecycle, -, metadata, ⟨fits, rfl⟩, rfl⟩ := declared
  simp only [compileFact, compileDeclaration, sealFact, AttestedSidecarFact.sealed, bind_eq_ok,
    require_eq_ok, pure_eq_ok, TypedCausalFact.make_eq_ok] at made
  obtain ⟨fact, ⟨-, -, -, -, -, -, fields⟩, item, ⟨given, -, -, -, -, -, rfl⟩, rfl⟩ := made
  refine ⟨_, rfl, ?_⟩
  constructor
  all_goals first | exact ⟨_, rfl, rfl⟩ | (simp only [fields]; rfl)

theorem bears_of_batchOf {batch : CausalAdapterBatch SidecarDeclaration}
    {compilation : SidecarCompilation}
    (planned : batchOf bundleId scope purpose reference observed documents = .ok batch)
    (compiled : compileSidecar c authority batch = .ok compilation) :
    compilation.completenessClaims = [] ∧
    (∀ item ∈ compilation.facts, ∃ d ∈ documents, Bears scope observed d item) ∧
    ∀ d ∈ documents, ∃ item ∈ compilation.facts, Bears scope observed d item := by
  simp only [batchOf, bind_eq_ok, pure_eq_ok] at planned
  obtain ⟨declarations, declared, rfl⟩ := planned
  simp only [compileSidecar, bind_eq_ok, pure_eq_ok] at compiled
  obtain ⟨source, -, facts, mapped, claims, mappedClaims, rfl⟩ := compiled
  have sorted {item : AttestedSidecarFact} : item ∈ (facts.filterMap id).insertionSort
      (fun a b => a.fact.factId ≤ b.fact.factId) ↔ some item ∈ facts := by
    rw [(List.perm_insertionSort _ _).mem_iff]
    simp
  refine ⟨?_, fun item member => ?_, fun d member => ?_⟩
  · refine List.filterMap_eq_nil_iff.mpr fun claim member => ?_
    obtain ⟨declaration, inBatch, made⟩ := mem_of_mapM_ok mappedClaims claim member
    obtain ⟨place, -, from_place⟩ := mem_of_mapM_ok declared declaration inBatch
    simp only [declareDocument, bind_eq_ok, pure_eq_ok] at from_place
    obtain ⟨lifecycle, -, metadata, -, rfl⟩ := from_place
    exact (Except.ok.inj made).symm
  · obtain ⟨declaration, inBatch, made⟩ := mem_of_mapM_ok mapped _ (sorted.mp member)
    obtain ⟨place, placed, from_place⟩ := mem_of_mapM_ok declared declaration inBatch
    obtain ⟨item', same, bears⟩ := bears_of_compileFact from_place made
    cases same
    exact ⟨place.1, mem_places placed, bears⟩
  · have somewhere : ∃ span, (d, span) ∈ places 0 documents := exists_place member
    obtain ⟨span, placed⟩ := somewhere
    obtain ⟨declaration, inBatch, from_place⟩ := exists_of_mapM_ok declared _ placed
    obtain ⟨item', inFacts, made⟩ := exists_of_mapM_ok mapped declaration inBatch
    obtain ⟨item, rfl, bears⟩ := bears_of_compileFact from_place made
    exact ⟨item, sorted.mpr inFacts, bears⟩

end

namespace Bears

variable {scopeId : Nat} {sessionId : String} {observed : List SidecarObservedIntent}
  {d : RouteDocument} {item : AttestedSidecarFact}
  (bears : Bears (toString scopeId) observed d item)
include bears

theorem legible (scope : d.scopeId = scopeId) : Legible scopeId item := by
  obtain ⟨m, carried, fields⟩ := bears.metadata
  refine ⟨bears.predicate, bears.scope, fun m' carried' => ?_⟩
  obtain rfl : m = m' := Option.some.inj (carried.symm.trans carried')
  rw [fields, bears.version, bears.observedAt, bears.eventTime]
  refine ⟨scope, rfl, fun n given => ?_, fun n given => ?_⟩
  · have sequence : d.sequence = some n := given
    rw [clockOf, sequence]
    rfl
  · have eventTime : d.eventTime = some n := given
    rw [eventTime]
    rfl

theorem documentOf_eq (plain : d.safetyPolicy = none) :
    documentOf scopeId sessionId item = d.toDocumentFields := by
  obtain ⟨m, carried, fields⟩ := bears.metadata
  simp only [documentOf, carried, routedDocument, fields, bears.factId, bears.value, bears.subject,
    routeFields, ← plain]

theorem mem_intentsOf {i : SidecarObservedIntent} :
    i ∈ intentsOf item ↔ i ∈ observed ∧ d.factId ∈ i.factIds := by
  obtain ⟨m, carried, fields⟩ := bears.metadata
  simp only [intentsOf, carried, Option.map_some, Option.getD_some, fields, routeFields,
    (List.perm_insertionSort _ _).mem_iff, List.mem_filter, decide_eq_true_eq]

end Bears

section

variable {scopeId : Nat} {sessionId : String} {a b : AttestedSidecarFact}

theorem intentsOf_like (like : a.Like b) : intentsOf b = intentsOf a := by
  rw [intentsOf, intentsOf, like.routeMetadata]

theorem documentOf_like (like : a.Like b) :
    documentOf scopeId sessionId b = documentOf scopeId sessionId a := by
  unfold documentOf
  rw [like.routeMetadata, like.fields]
  split <;> rfl

theorem legible_like (like : a.Like b) (legible : Legible scopeId a) : Legible scopeId b := by
  refine ⟨like.predicate.trans legible.predicate, like.scope.trans legible.scope, ?_⟩
  rw [like.routeMetadata, like.fields]
  exact legible.agrees

theorem factId_documentOf : (documentOf scopeId sessionId a).factId = a.fact.factId := by
  unfold documentOf
  split <;> rfl

end

section

variable {documents documents' : List RouteDocument} {factIds : List Nat}
  {sessionId : Option String}

theorem oneSession_iff : OneSession documents factIds sessionId ↔
    ∃ session, (∃ d ∈ documents, d.factId ∈ factIds) ∧
      (∀ d ∈ documents, d.factId ∈ factIds → d.sessionId = session) ∧
      ∀ s ∈ sessionId, s = session := by
  have mem_sessions {s : String} : s ∈ sessionsOf documents factIds ↔
      ∃ d ∈ documents, d.factId ∈ factIds ∧ d.sessionId = s := by
    simp only [sessionsOf, List.mem_dedup, List.mem_map, List.mem_filter, decide_eq_true_eq,
      and_assoc]
  constructor
  · rintro ⟨single, named⟩
    obtain ⟨session, only⟩ := List.length_eq_one_iff.mp single
    obtain ⟨d, member, inside, -⟩ := mem_sessions.mp (only ▸ List.mem_singleton_self session)
    refine ⟨session, ⟨d, member, inside⟩, fun d' member' inside' => ?_, fun s given => ?_⟩
    · have seen := mem_sessions.mpr ⟨d', member', inside', rfl⟩
      rw [only] at seen
      exact List.mem_singleton.mp seen
    · have same := named s given
      rw [only] at same
      exact (List.singleton_inj.mp same).symm
  · rintro ⟨session, ⟨d, member, inside⟩, all, named⟩
    have only : sessionsOf documents factIds = [session] := by
      have perm : (sessionsOf documents factIds).Perm [session] := by
        refine (List.perm_ext_iff_of_nodup (List.nodup_dedup _)
          (List.nodup_singleton session)).mpr fun s => ?_
        rw [List.mem_singleton]
        refine mem_sessions.trans ?_
        constructor
        · rintro ⟨d', member', inside', rfl⟩
          exact all d' member' inside'
        · rintro rfl
          exact ⟨d, member, inside, all d member inside⟩
      exact List.perm_singleton.mp perm
    refine ⟨by rw [only]; rfl, fun s given => ?_⟩
    rw [only, named s given]

theorem OneSession.of_same (one : OneSession documents factIds sessionId)
    (same : ∀ d : RouteDocument, d.factId ∈ factIds → (d ∈ documents ↔ d ∈ documents')) :
    OneSession documents' factIds sessionId := by
  obtain ⟨session, ⟨d, member, inside⟩, all, named⟩ := oneSession_iff.mp one
  refine oneSession_iff.mpr ⟨session, ⟨d, (same d inside).mp member, inside⟩, ?_, named⟩
  intro d' member' inside'
  exact all d' ((same d' inside').mpr member') inside'

end

/-- Facts under change: new ones bear documents, and of the others those stay whose FactIds are not
gone, sealed again where their record was redacted. -/
structure Changes (scope : String) (observed : List SidecarObservedIntent)
    (documents : List RouteDocument) (gone : List Nat) (items items' : List AttestedSidecarFact) :
    Prop where
  source : ∀ item' ∈ items', (∃ d ∈ documents, Bears scope observed d item') ∨
    item'.fact.factId ∉ gone ∧ ∃ item ∈ items, item.Like item'
  bears : ∀ d ∈ documents, ∃ item' ∈ items', Bears scope observed d item'
  kept : ∀ item ∈ items, item.fact.factId ∉ gone → ∃ item' ∈ items', item.Like item'

section

variable {scopeId : Nat} {sessionId : String} {items items' : List AttestedSidecarFact}
  {documents documents' added : List RouteDocument} {stay go more : List AnswerContextIntent}
  {gone : List Nat}

theorem Reads.factIds {intents : List AnswerContextIntent}
    (reads : Reads scopeId sessionId items documents intents) :
    (documents.map fun d => d.factId) = items.map fun item => item.fact.factId := by
  have texts := congrArg (List.map fun d => d.factId) reads.texts
  rw [List.map_map, List.map_map] at texts
  refine texts.trans (List.map_congr_left fun item _ => ?_)
  exact factId_documentOf

theorem Reads.mem_documents {intents : List AnswerContextIntent}
    (reads : Reads scopeId sessionId items documents intents) {d : RouteDocument} :
    d ∈ documents ↔ ∃ item ∈ items, documentOf scopeId sessionId item = d.toDocumentFields := by
  have there : d.toDocumentFields ∈ documents.map (fun d => d.toDocumentFields) ↔
      d ∈ documents := by
    simp only [List.mem_map]
    constructor
    · rintro ⟨d', member, same⟩
      exact RouteDocument.ext same ▸ member
    · intro member
      exact ⟨d, member, rfl⟩
  rw [← there, reads.texts, List.mem_map]

/-- Facts that change as documents and intents do read as what these become: `stay` are the
intents that keep all their members, `go` those that lose them, `more` those of the new
documents. -/
theorem Reads.change (reads : Reads scopeId sessionId items documents (stay ++ go))
    (changes : Changes (toString scopeId) (observedFrom stay.length more) added gone items items')
    (ordered : Canonical (items'.map fun item => item.fact.factId))
    (ordered' : Canonical (documents'.map fun d => d.factId))
    (members : ∀ d, d ∈ documents' ↔ d ∈ added ∨ d ∈ documents ∧ d.factId ∉ gone)
    (plain : ∀ d ∈ added, d.scopeId = scopeId ∧ d.safetyPolicy = none)
    (replaced : ∀ d ∈ added, d.factId ∈ gone) (stays : ∀ i ∈ stay, ∀ id ∈ i.factIds, id ∉ gone)
    (goes : ∀ i ∈ go, ∀ id ∈ i.factIds, id ∈ gone)
    (inside : ∀ i ∈ more, ∀ id ∈ i.factIds, ∃ d ∈ added, d.factId = id)
    (names : ((stay ++ more).map fun i => i.intentId).Nodup)
    (sessions : ∀ i ∈ more, OneSession added i.factIds i.sessionId) :
    Reads scopeId sessionId items' documents' (stay ++ more) := by
  have old := observedFrom_append 0 stay go
  have new := observedFrom_append 0 stay more
  rw [Nat.zero_add] at old new
  have fiber : ∀ i ∈ observedFrom 0 (stay ++ more), ∀ id ∈ i.factIds,
      ∃ item' ∈ items', item'.fact.factId = id ∧ i ∈ intentsOf item' := by
    intro i observed id member
    rw [new, List.mem_append] at observed
    rcases observed with before | later
    · obtain ⟨k, a, inStay, rfl⟩ := of_mem_observedFrom before
      have was : observe k a ∈ observedFrom 0 (stay ++ go) := by
        rw [old]
        exact List.mem_append_left _ before
      obtain ⟨item, inItems, rfl, carried⟩ := reads.fiber _ was id member
      obtain ⟨item', inItems', like⟩ := changes.kept item inItems (stays a inStay _ member)
      exact ⟨item', inItems', like.factId, (intentsOf_like like).symm ▸ carried⟩
    · obtain ⟨k, a, inMore, rfl⟩ := of_mem_observedFrom later
      obtain ⟨d, inAdded, rfl⟩ := inside a inMore id member
      obtain ⟨item', inItems', bears⟩ := changes.bears d inAdded
      exact ⟨item', inItems', bears.factId, bears.mem_intentsOf.mpr ⟨later, member⟩⟩
  constructor
  case legible =>
    intro item' member
    rcases changes.source item' member with ⟨d, inAdded, bears⟩ | ⟨-, item, inItems, like⟩
    · exact bears.legible (plain d inAdded).1
    · exact legible_like like (reads.legible item inItems)
  case texts =>
    have left : Canonical ((documents'.map fun d => d.toDocumentFields).map fun d => d.factId) := by
      rw [List.map_map]
      exact ordered'
    have right : Canonical ((items'.map (documentOf scopeId sessionId)).map fun d => d.factId) := by
      rw [List.map_map, show (items'.map ((fun d => d.factId) ∘ documentOf scopeId sessionId)) =
        items'.map fun item => item.fact.factId from
          List.map_congr_left fun item _ => factId_documentOf]
      exact ordered
    refine eq_of_canonical left right fun fields => ?_
    simp only [List.mem_map]
    constructor
    · rintro ⟨d, member, rfl⟩
      rcases (members d).mp member with inAdded | ⟨inDocuments, stay⟩
      · obtain ⟨item', inItems', bears⟩ := changes.bears d inAdded
        exact ⟨item', inItems', bears.documentOf_eq (plain d inAdded).2⟩
      · obtain ⟨item, inItems, same⟩ := reads.mem_documents.mp inDocuments
        have factId : item.fact.factId = d.factId := by
          rw [← same, factId_documentOf]
        obtain ⟨item', inItems', like⟩ := changes.kept item inItems (factId ▸ stay)
        exact ⟨item', inItems', (documentOf_like like).trans same⟩
    · rintro ⟨item', member, rfl⟩
      rcases changes.source item' member with
        ⟨d, inAdded, bears⟩ | ⟨stay, item, inItems, like⟩
      · exact ⟨d, (members d).mpr (.inl inAdded), (bears.documentOf_eq (plain d inAdded).2).symm⟩
      · have text : documentOf scopeId sessionId item ∈
            documents.map fun d => d.toDocumentFields := by
          rw [reads.texts]
          exact List.mem_map.mpr ⟨item, inItems, rfl⟩
        obtain ⟨d, inDocuments, same⟩ := List.mem_map.mp text
        have factId : d.factId = item.fact.factId := by
          rw [same, factId_documentOf]
        have reread := same.trans (documentOf_like like).symm
        refine ⟨d, (members d).mpr (.inr ⟨inDocuments, ?_⟩), reread⟩
        rw [factId, ← like.factId]
        exact stay
  case within =>
    intro item' member i carried
    rcases changes.source item' member with ⟨d, inAdded, bears⟩ | ⟨-, item, inItems, like⟩
    · rw [bears.factId]
      exact (bears.mem_intentsOf.mp carried).2
    · rw [like.factId]
      exact reads.within item inItems i (intentsOf_like like ▸ carried)
  case observed =>
    intro i
    constructor
    · rintro ⟨item', member, carried⟩
      rw [new, List.mem_append]
      rcases changes.source item' member with
        ⟨d, inAdded, bears⟩ | ⟨stay, item, inItems, like⟩
      · exact .inr (bears.mem_intentsOf.mp carried).1
      · rw [intentsOf_like like] at carried
        have was := (reads.observed i).mp ⟨item, inItems, carried⟩
        rw [old, List.mem_append] at was
        refine .inl (was.resolve_right fun lost => ?_)
        obtain ⟨k, a, inGo, rfl⟩ := of_mem_observedFrom lost
        have away := goes a inGo _ (reads.within item inItems _ carried)
        rw [← like.factId] at away
        exact stay away
    · intro observed
      obtain ⟨id, member⟩ := List.exists_mem_of_ne_nil _ i.checked.2.2.1
      obtain ⟨item', inItems', -, carried⟩ := fiber i observed id member
      exact ⟨item', inItems', carried⟩
  case names => exact names
  case fiber => exact fiber
  case session =>
    intro i member
    rcases List.mem_append.mp member with before | later
    · refine (reads.session i (List.mem_append_left _ before)).of_same fun d inIntent => ?_
      have unmoved := stays i before _ inIntent
      rw [members]
      constructor
      · intro inDocuments
        exact .inr ⟨inDocuments, unmoved⟩
      · rintro (inAdded | ⟨inDocuments, -⟩)
        · exact absurd (replaced d inAdded) unmoved
        · exact inDocuments
    · refine (sessions i later).of_same fun d inIntent => ?_
      obtain ⟨e, inAdded, same⟩ := inside i later _ inIntent
      rw [members]
      constructor
      · intro inAdded
        exact .inl inAdded
      · rintro (inAdded' | ⟨-, away⟩)
        · exact inAdded'
        · exact absurd (same ▸ replaced e inAdded) away

end

section

variable {old new : List RouteDocument}

theorem mem_mergeDocuments (before : (old.map fun d => d.factId).Nodup)
    (after : (new.map fun d => d.factId).Nodup) {d : RouteDocument} :
    d ∈ mergeDocuments old new ↔ d ∈ new ∨ d ∈ old ∧ d.factId ∉ new.map fun d => d.factId := by
  simp only [mergeDocuments, List.mem_map (f := Prod.snd), Dict.mem_sortedBy, Prod.exists,
    exists_eq_right, Dict.get_update_keyed after, Dict.get_update_keyed before, Dict.get_empty,
    reduceCtorEq, and_false, or_false]
  constructor
  · rintro ⟨k, ⟨member, -⟩ | ⟨outside, member, rfl⟩⟩
    · exact .inl member
    · exact .inr ⟨member, outside⟩
  · rintro (member | ⟨member, outside⟩)
    · exact ⟨_, .inl ⟨member, rfl⟩⟩
    · exact ⟨_, .inr ⟨outside, member, rfl⟩⟩

theorem canonical_mergeDocuments (before : (old.map fun d => d.factId).Nodup)
    (after : (new.map fun d => d.factId).Nodup) :
    Canonical ((mergeDocuments old new).map fun d => d.factId) := by
  let start : Dict Nat RouteDocument := Dict.empty.update (old.map fun d => (d.factId, d))
  let merged := start.update (new.map fun d => (d.factId, d))
  have names : ((mergeDocuments old new).map fun d => d.factId) =
      (merged.sortedBy id).map Prod.fst := by
    rw [mergeDocuments, List.map_map]
    refine List.map_congr_left fun e member => ?_
    have found := Dict.mem_sortedBy.mp member
    simp only [Dict.get_update_keyed after, Dict.get_update_keyed before, Dict.get_empty,
      reduceCtorEq, and_false, or_false] at found
    rcases found with ⟨-, same⟩ | ⟨-, -, same⟩
    · exact same
    · exact same
  rw [names]
  exact merged.keys_sortedBy

end

section

variable {known intents : List AnswerContextIntent}

theorem observeAll_of_fresh {next : Nat} (fresh : ∀ i ∈ intents,
    i.intentId ∉ known.map fun k => k.intentId) :
    observeAll known next intents = observedFrom next intents := by
  induction intents generalizing next with
  | nil => rfl
  | cons i rest ih =>
    have unknown : (known.findIdx? fun k => k.intentId = i.intentId) = none := by
      refine List.findIdx?_eq_none_iff.mpr fun k member => decide_eq_false fun same => ?_
      exact fresh i List.mem_cons_self (List.mem_map.mpr ⟨k, member, same⟩)
    rw [observeAll, unknown]
    exact congrArg (observe next i :: ·) (ih fun j member =>
      fresh j (List.mem_cons_of_mem i member))

variable {byIntent : Dict String AnswerContextIntent}

private theorem filterMap_get_names (each : ∀ i ∈ intents, byIntent.get i.intentId = some i) :
    (intents.map fun i => i.intentId).filterMap byIntent.get = intents := by
  induction intents with
  | nil => rfl
  | cons i rest ih =>
    rw [List.map_cons, List.filterMap_cons, each i List.mem_cons_self,
      ih fun j member => each j (List.mem_cons_of_mem i member)]

private theorem get_known (names : (known.map fun i => i.intentId).Nodup) (k : String)
    (i : AnswerContextIntent) : ((Dict.empty (κ := String)).update
      (known.map fun i => (i.intentId, i))).get k = some i ↔ i ∈ known ∧ i.intentId = k := by
  rw [Dict.get_update_keyed names]
  simp

private theorem foldl_putIntent_of_fresh {order : List String}
    (names : (intents.map fun i => i.intentId).Nodup)
    (fresh : ∀ i ∈ intents, byIntent.get i.intentId = none) :
    intents.foldl putIntent (order, byIntent) =
      (order ++ intents.map fun i => i.intentId,
        byIntent.update (intents.map fun i => (i.intentId, i))) := by
  induction intents generalizing order byIntent with
  | nil => simp
  | cons i rest ih =>
    obtain ⟨new, names⟩ := List.nodup_cons.mp names
    have absent := (Dict.get_eq_none_iff _ _).mp (fresh i List.mem_cons_self)
    have onward : ∀ j ∈ rest, (byIntent.set i.intentId i).get j.intentId = none := by
      intro j member
      have differs : i.intentId ≠ j.intentId := by
        intro same
        exact new (List.mem_map.mpr ⟨j, member, same.symm⟩)
      rw [Dict.get_set_ne _ _ differs]
      exact fresh j (List.mem_cons_of_mem i member)
    rw [List.foldl_cons, putIntent, if_neg absent, ih names onward]
    simp

private theorem foldl_putIntent_of_known (order : List String)
    (held : ∀ i ∈ intents, byIntent.get i.intentId = some i) :
    ∃ byIntent', intents.foldl putIntent (order, byIntent) = (order, byIntent') ∧
      ∀ k, byIntent'.get k = byIntent.get k := by
  induction intents generalizing byIntent with
  | nil => exact ⟨byIntent, rfl, fun _ => rfl⟩
  | cons i rest ih =>
    have here := held i List.mem_cons_self
    have present := (byIntent.mem_keys_iff i.intentId).mpr ⟨i, here⟩
    have same : ∀ k, (byIntent.set i.intentId i).get k = byIntent.get k := by
      intro k
      rw [Dict.get_set]
      split
      · rename_i named
        rw [← named, here]
      · rfl
    have onward : ∀ j ∈ rest, (byIntent.set i.intentId i).get j.intentId = some j := by
      intro j member
      rw [same]
      exact held j (List.mem_cons_of_mem i member)
    obtain ⟨byIntent', run, alike⟩ := ih onward
    refine ⟨byIntent', ?_, fun k => (alike k).trans (same k)⟩
    rw [List.foldl_cons, putIntent, if_pos present]
    exact run

theorem mergeIntents_of_fresh (names : ((known ++ intents).map fun i => i.intentId).Nodup) :
    mergeIntents known intents = known ++ intents := by
  rw [List.map_append, List.nodup_append] at names
  obtain ⟨before, after, apart⟩ := names
  have fresh : ∀ i ∈ intents, ((Dict.empty (κ := String)).update
      (known.map fun i => (i.intentId, i))).get i.intentId = none := by
    intro i member
    cases found : ((Dict.empty (κ := String)).update
      (known.map fun i => (i.intentId, i))).get i.intentId with
    | none => rfl
    | some k =>
      obtain ⟨inKnown, same⟩ := (get_known before _ k).mp found
      exact absurd same (apart _ (List.mem_map_of_mem inKnown) _ (List.mem_map_of_mem member))
  rw [mergeIntents, foldl_putIntent_of_fresh after fresh, ← List.map_append]
  refine filterMap_get_names fun i member => ?_
  rw [Dict.get_update_keyed after]
  rcases List.mem_append.mp member with old | new
  · refine .inr ⟨fun inside => ?_, (get_known before _ i).mpr ⟨old, rfl⟩⟩
    exact apart _ (List.mem_map_of_mem old) _ inside rfl
  · exact .inl ⟨new, rfl⟩

theorem mergeIntents_of_known (names : (known.map fun i => i.intentId).Nodup)
    (held : ∀ i ∈ intents, i ∈ known) : mergeIntents known intents = known := by
  obtain ⟨byIntent, run, same⟩ := foldl_putIntent_of_known (known.map fun i => i.intentId)
    fun i member => (get_known names _ i).mpr ⟨held i member, rfl⟩
  rw [mergeIntents, run]
  refine filterMap_get_names fun i member => ?_
  rw [same]
  exact (get_known names _ i).mpr ⟨member, rfl⟩

end

end ProofRay.OpenText
