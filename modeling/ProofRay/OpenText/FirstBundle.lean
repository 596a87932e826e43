/- The first bundle of a memory: what a well-formed bundle is compiled to, and that an empty memory
   takes it. -/

import ProofRay.OpenText.Reopening

namespace ProofRay.OpenText

open Engine (Crypto)
open Lib (Dict)
open Lib.Guard
open Sidecar
open StandaloneCausalMemory (ingest_eq missing reindex sortedFacts)
open AuthorizedSidecarMemory (attested fork ingest_of)

namespace Session

variable (c : Crypto) (s : Session)

def emptySidecar : AuthorizedSidecarMemory where
  scope := s.scope
  purpose := s.purpose
  authorities := [s.authority c]
  limits := .default
  memory := .new s.scope false
  deferPublication := false
  attestations := .empty
  sources := .empty
  completeness := .empty
  supersededBy := .empty
  factsByKey := .empty

def emptyMemory : OpenTextMemory where
  session := s
  host := ⟨⟨s.registry c, [], [], s.emptySidecar c⟩, []⟩
  documents := []
  contextIntents := []

theorem openStore_emptyMemory : OpenTextMemory.openStore c s [] = .ok (s.emptyMemory c) := by
  have made : AuthorizedSidecarMemory.make c s.scope [s.authority c] .default true =
      .ok { s.emptySidecar c with memory := .new s.scope true, deferPublication := true } := by
    simp only [AuthorizedSidecarMemory.make, bind_eq_ok, require_eq_ok, pure_eq_ok]
    exact ⟨(), List.cons_ne_nil _ _, (), Nat.le_add_left 1 1023, (),
      List.forall_mem_singleton.mpr (List.mem_singleton_self _), (), List.nodup_singleton _, (),
      List.nodup_singleton _, (), List.forall_mem_singleton.mpr rfl, rfl⟩
  have recovered : (s.registry c).recover c [] = .ok (s.emptySidecar c, none) := by
    unfold Registry.recover
    rw [show (s.registry c).scope = s.scope from rfl,
      show (s.registry c).authorities = [s.authority c] from rfl, made]
    rfl
  have live : DurableAuthorizedSidecarMemory.openStore c (s.registry c) [] =
      .ok ⟨s.registry c, [], [], s.emptySidecar c⟩ := by
    unfold DurableAuthorizedSidecarMemory.openStore
    rw [require_of ⟨s.scope_ne_empty, List.cons_ne_nil _ _, List.nodup_singleton _⟩, ok_bind]
    simp only [readRecords, ok_bind, recovered]
    rfl
  unfold OpenTextMemory.openStore
  rw [live]
  rfl

end Session

def sourceOf (c : Crypto) (bundleId : String) (documents : List RouteDocument) :
    CausalSourceEnvelope :=
  ⟨bundleId, contentOf documents, hexSha256 c (encode (contentOf documents))⟩

structure Compiled (c : Crypto) (s : Session) (source : CausalSourceEnvelope) (d : RouteDocument)
    (item : AttestedSidecarFact) : Prop where
  factId : item.fact.factId = d.factId
  scope : item.fact.scope = s.scope
  key : item.fact.key = (d.source, "surface_document")
  value : item.fact.value = d.text
  eventId : item.fact.eventId = d.source ++ ":surface-document:" ++ toString d.factId
  causes : item.fact.causes = []
  supersedes : item.lifecycle.supersedes = []
  fromSource : item.fact.sourceId = source.sourceId ∧ item.fact.sourceSha256 = source.sha256
  permitted : (s.authority c).permits item.fact.toFactFields = true
  verified : item.verify c (s.authority c) source = true

private theorem toList_ne_nil_of_not_blank {text : String} (written : blank text = false) :
    text.toList ≠ [] := by
  intro empty
  rw [blank, empty] at written
  cases written

section

variable {c : Crypto} {s : Session} {documents : List RouteDocument}
  {observed : List SidecarObservedIntent} {reference bundleId : String}

theorem contentOf_ne_empty {d : RouteDocument} (member : d ∈ documents) :
    contentOf documents ≠ "" := by
  have placed : ∃ span, (d, span) ∈ places 0 documents := exists_place member
  obtain ⟨⟨start, stop⟩, placed⟩ := placed
  obtain ⟨-, -, ends, inside, -⟩ := slice_laid (fun d : RouteDocument => d.text) (fun _ => rfl)
    (fun _ _ _ => rfl) placed
  have long := List.length_pos_of_ne_nil (toList_ne_nil_of_not_blank d.checked.2.1.1)
  intro empty
  have none : joinLines (documents.map fun d => d.text) = [] := by
    have chars := congrArg String.toList empty
    rwa [contentOf, String.toList_ofList] at chars
  rw [none, List.length_nil] at inside
  simp only at ends inside
  omega

theorem declareDocument_of (given : reference ≠ "")
    (names : (observed.map fun i => i.intentId).Nodup) (place : RouteDocument × Nat × Nat) :
    ∃ (lifecycle : SidecarLifecycle) (metadata : SidecarRouteMetadata),
      declareDocument s.scope s.purpose reference observed place =
        .ok (.fact (structuredDocument s.scope place) (some lifecycle) (some metadata)) ∧
      lifecycle.purpose = s.purpose ∧ lifecycle.supersedes = [] ∧
      metadata.version = place.1.version := by
  let d := place.1
  let carried := (observed.filter fun i => d.factId ∈ i.factIds).insertionSort
    fun a b => a.intentId ≤ b.intentId
  have canonical : Canonical (carried.map fun i => i.intentId) := by
    have rising : (carried.map fun i => i.intentId).Pairwise (· ≤ ·) :=
      List.pairwise_map.mpr (List.pairwise_insertionSort _ _)
    have perm : carried.Perm (observed.filter fun i => d.factId ∈ i.factIds) :=
      List.perm_insertionSort _ _
    have distinct : (carried.map fun i => i.intentId).Nodup :=
      (perm.map fun i => i.intentId).nodup_iff.mpr (names.sublist (List.filter_sublist.map _))
    exact (rising.and distinct).imp fun h => lt_of_le_of_ne h.1 h.2
  obtain ⟨⟨-, scope, version⟩, ⟨-, session, -⟩, span, speaker⟩ := d.checked
  have fields : (routeFields d carried).Checked :=
    ⟨scope, session, version, speaker, span, canonical⟩
  have lasting : (⟨clockOf d, none, s.purpose, reference, []⟩ : LifecycleFields).Checked :=
    ⟨by simp, s.checked.2, given, .nil⟩
  refine ⟨⟨_, lasting⟩, ⟨_, fields⟩, ?_, rfl, rfl, rfl⟩
  simp only [declareDocument, bind_eq_ok, checked_eq_ok, pure_eq_ok]
  exact ⟨_, ⟨lasting, rfl⟩, _, ⟨fields, rfl⟩, rfl⟩

theorem compileFact_of (named : bundleId ≠ "") {place : RouteDocument × Nat × Nat}
    (placed : place ∈ places 0 documents) {lifecycle : SidecarLifecycle}
    {metadata : SidecarRouteMetadata} (purpose : lifecycle.purpose = s.purpose)
    (first : lifecycle.supersedes = []) (version : metadata.version = place.1.version) :
    ∃ item, compileFact c (s.authority c) (sourceOf c bundleId documents)
        (.fact (structuredDocument s.scope place) (some lifecycle) (some metadata)) =
          .ok (some item) ∧
      Compiled c s (sourceOf c bundleId documents) place.1 item := by
  obtain ⟨d, start, stop⟩ := place
  obtain ⟨member, -, ends, inside, text⟩ := slice_laid (fun d : RouteDocument => d.text)
    (fun _ => rfl) (fun _ _ _ => rfl) placed
  simp only [Nat.zero_add, Nat.sub_zero] at member ends inside text version
  have long := List.length_pos_of_ne_nil (toList_ne_nil_of_not_blank d.checked.2.1.1)
  have nonempty := contentOf_ne_empty member
  have chars : (contentOf documents).toList = joinLines (documents.map fun d => d.text) :=
    String.toList_ofList
  have verifies : (sourceOf c bundleId documents).verify c = true := by
    simp [CausalSourceEnvelope.verify, sourceOf, named, nonempty]
  have quoted : slice (contentOf documents) start stop = d.text := by
    rw [slice, chars, text, String.ofList_toList]
  let declared := structuredDocument s.scope (d, start, stop)
  let fields : FactFields :=
    { factId := d.factId
      scope := s.scope
      subject := d.source
      predicate := "surface_document"
      value := d.text
      observedAt := clockOf d
      eventTime := d.eventTime.getD (clockOf d)
      version := d.version
      unit := ""
      polarity := 1
      asserted := true
      eventId := d.source ++ ":surface-document:" ++ toString d.factId
      causes := []
      sourceId := bundleId
      sourceSha256 := hexSha256 c (encode (contentOf documents))
      sourceSpan := (start, stop) }
  have fits : fields.Checked :=
    ⟨⟨s.scope_ne_empty, d.checked.2.1.2.2, by simp [fields]⟩, d.checked.1.2.2.1, .inr rfl,
      ⟨.nil, by simp [fields]⟩, ⟨named, isSha256_hexSha256 c _⟩, by simp only [fields]; omega⟩
  let fact : TypedCausalFact := ⟨fields, fits⟩
  have compiles : compileDeclaration c (sourceOf c bundleId documents) declared = .ok fact := by
    unfold compileDeclaration
    rw [require_of verifies, ok_bind]
    rw [require_of (show declared.sourceSpan.1 < declared.sourceSpan.2 ∧
      declared.sourceSpan.2 ≤ (sourceOf c bundleId documents).content.toList.length from ?_),
      ok_bind]
    · rw [require_of (show slice (sourceOf c bundleId documents).content declared.sourceSpan.1
        declared.sourceSpan.2 = declared.value from quoted), ok_bind]
      exact TypedCausalFact.make_eq_ok.mpr rfl
    · refine ⟨?_, ?_⟩
      · show start < stop
        omega
      · show stop ≤ (contentOf documents).toList.length
        rw [chars]
        exact inside
  have own : lifecycle.purpose = (s.authority c).purpose ∧ fact.factId ∉ lifecycle.supersedes := by
    rw [first]
    exact ⟨purpose, List.not_mem_nil⟩
  have same : ∀ m ∈ some metadata, fact.version = m.version := by
    intro m given
    obtain rfl := Option.some.inj given
    exact version.symm
  obtain ⟨item, made⟩ : ∃ item, AttestedSidecarFact.sealed c fact (s.authority c) lifecycle
      (some metadata) = .ok item := by
    unfold AttestedSidecarFact.sealed
    rw [require_of own, ok_bind, require_of same, ok_bind]
    exact ⟨_, rfl⟩
  have form := made
  simp only [AttestedSidecarFact.sealed, bind_eq_ok, require_eq_ok, pure_eq_ok] at form
  obtain ⟨-, -, -, -, form⟩ := form
  have itsFact : item.fact = fact := by rw [← form]
  have itsLifecycle : item.lifecycle = lifecycle := by rw [← form]
  have again : AttestedSidecarFact.sealed c item.fact (s.authority c) item.lifecycle
      item.routeMetadata = .ok item := by
    rw [itsFact, itsLifecycle, show item.routeMetadata = some metadata by rw [← form]]
    exact made
  have permits : (s.authority c).permits item.fact.toFactFields = true := by
    simp [SidecarAuthority.permits, Session.authority, itsFact, fact, fields]
  refine ⟨item, ?_, ?_⟩
  · simp only [compileFact, sealFact]
    rw [compiles, ok_bind, ok_bind, made]
    rfl
  · constructor
    case supersedes => rw [itsLifecycle, first]
    case permitted => exact permits
    case verified =>
      refine (AttestedSidecarFact.verify_eq_true c).mpr ⟨again, permits, ?_⟩
      rw [itsFact]
      simp only [verifyMicrocitation, verifies, Bool.true_and, Bool.and_eq_true, decide_eq_true_eq]
      refine ⟨⟨⟨rfl, rfl⟩, ?_⟩, quoted⟩
      show stop ≤ (contentOf documents).toList.length
      rw [chars]
      exact inside
    case fromSource =>
      rw [itsFact]
      exact ⟨rfl, rfl⟩
    all_goals rw [itsFact] <;> rfl

private theorem map_fst_places (offset : Nat) (documents : List RouteDocument) :
    (places offset documents).map Prod.fst = documents := by
  induction documents generalizing offset with
  | nil => rfl
  | cons d rest ih =>
    rw [places, List.map_cons, ih]

private theorem filterMap_map_some {α : Type} (l : List α) : (l.map some).filterMap id = l := by
  rw [List.filterMap_map]
  exact List.filterMap_some

theorem compileSidecar_of (given : reference ≠ "") (named : bundleId ≠ "")
    (names : (observed.map fun i => i.intentId).Nodup) (some_document : documents ≠ []) :
    ∃ batch facts, batchOf bundleId s.scope s.purpose reference observed documents = .ok batch ∧
      batch.sourceId = bundleId ∧ batch.content = contentOf documents ∧ batch.scope = s.scope ∧
      compileSidecar c (s.authority c) batch =
        .ok ⟨facts.insertionSort fun a b => a.fact.factId ≤ b.fact.factId, []⟩ ∧
      List.Forall₂ (Compiled c s (sourceOf c bundleId documents)) documents facts := by
  let source := sourceOf c bundleId documents
  obtain ⟨d, member⟩ := List.exists_mem_of_ne_nil _ some_document
  have sealing : CausalSourceEnvelope.sealed c bundleId (contentOf documents) = .ok source :=
    (CausalSourceEnvelope.sealed_eq_ok c).mpr ⟨⟨named, contentOf_ne_empty member⟩, rfl⟩
  have declared : ∀ place ∈ places 0 documents, ∃ declaration,
      declareDocument s.scope s.purpose reference observed place = .ok declaration ∧
      ∃ item, compileFact c (s.authority c) source declaration = .ok (some item) ∧
        compileClaim c (s.authority c) source s.scope declaration = .ok none ∧
        Compiled c s source place.1 item := by
    intro place placed
    obtain ⟨lifecycle, metadata, made, purpose, first, version⟩ :=
      declareDocument_of (s := s) given names place
    obtain ⟨item, compiled, good⟩ := compileFact_of (c := c) named placed purpose first version
    exact ⟨_, made, item, compiled, rfl, good⟩
  obtain ⟨declarations, mapped, each⟩ := mapM_of_forall declared
  have compiled : ∃ facts, declarations.mapM (compileFact c (s.authority c) source) =
        .ok (facts.map some) ∧
      declarations.mapM (compileClaim c (s.authority c) source s.scope) =
        .ok (facts.map fun _ => none) ∧
      List.Forall₂ (fun place item => Compiled c s source place.1 item) (places 0 documents)
        facts := by
    clear mapped declared
    generalize places 0 documents = laid at each ⊢
    induction each with
    | nil => exact ⟨[], rfl, rfl, .nil⟩
    | cons here _ ih =>
      obtain ⟨item, fact, claim, good⟩ := here
      obtain ⟨facts, onFacts, onClaims, all⟩ := ih
      refine ⟨item :: facts, ?_, ?_, .cons good all⟩
      · rw [List.mapM_cons, fact, ok_bind, onFacts]
        rfl
      · rw [List.mapM_cons, claim, ok_bind, onClaims]
        rfl
  obtain ⟨facts, onFacts, onClaims, all⟩ := compiled
  refine ⟨⟨bundleId, contentOf documents, s.scope, declarations⟩, facts, ?_, rfl, rfl, rfl, ?_, ?_⟩
  · unfold batchOf
    rw [mapped]
    rfl
  · unfold compileSidecar
    rw [sealing, ok_bind, onFacts, ok_bind, onClaims, ok_bind, filterMap_map_some]
    rw [show (facts.map fun _ => (none : Option AttestedCompletenessClaim)).filterMap id = [] from
      List.filterMap_eq_nil_iff.mpr fun claim inClaims => by
        obtain ⟨-, -, rfl⟩ := List.mem_map.mp inClaims
        rfl]
    rfl
  · have placed : List.Forall₂ (Compiled c s source) ((places 0 documents).map Prod.fst) facts :=
      List.forall₂_map_left_iff.mpr all
    rwa [map_fst_places] at placed

end

theorem exists_commit_of_new {scope : String} {source : CausalSourceEnvelope}
    {proposed : List TypedCausalFact} (given : scope ≠ "") (some_fact : proposed ≠ [])
    (canonical : Canonical (proposed.map fun f => f.factId))
    (fits : ∀ f ∈ proposed, f.scope = scope ∧ f.causes = []) :
    ∃ m', (StandaloneCausalMemory.new scope false).commit source proposed = .ok m' := by
  let m := StandaloneCausalMemory.new scope false
  have novel : m.novel proposed = proposed :=
    List.filter_eq_self.mpr fun f _ => rfl
  let facts : Dict Nat TypedCausalFact := Dict.empty.update (proposed.map fun f => (f.factId, f))
  have distinct : (proposed.map fun f => f.factId).Nodup := canonical.imp Nat.ne_of_lt
  have held (k : Nat) (f : TypedCausalFact) :
      facts.get k = some f ↔ f ∈ proposed ∧ f.factId = k := by
    simp only [facts, Dict.get_update_keyed distinct, Dict.get_empty, reduceCtorEq, and_false,
      or_false]
  have members (f : TypedCausalFact) :
      f ∈ sortedFacts facts ↔ f ∈ proposed := by
    simp only [sortedFacts, List.mem_map, Prod.exists, Dict.mem_sortedBy,
      exists_eq_right, held]
    constructor
    · rintro ⟨k, member, -⟩
      exact member
    · intro member
      exact ⟨_, member, rfl⟩
  have ordered : Canonical ((sortedFacts facts).map fun f => f.factId) := by
    have names : ((sortedFacts facts).map fun f => f.factId) =
        (facts.sortedBy id).map Prod.fst := by
      rw [sortedFacts, List.map_map]
      exact List.map_congr_left fun e member => ((held _ _).mp (Dict.mem_sortedBy.mp member)).2
    rw [names]
    exact facts.keys_sortedBy
  obtain ⟨f, first⟩ := List.exists_mem_of_ne_nil _ some_fact
  have made : ∃ executor,
      TypedCausalExecutor.make (sortedFacts facts) scope = .ok executor := by
    refine ⟨⟨sortedFacts facts, scope⟩, ?_⟩
    simp only [TypedCausalExecutor.make, bind_eq_ok, require_eq_ok, pure_eq_ok]
    refine ⟨(), ⟨List.ne_nil_of_mem ((members f).mpr first), given⟩, (), ordered, (), ?_, (), ?_,
      trivial⟩
    · intro f member
      exact (fits f ((members f).mp member)).1
    · intro f member cause named
      rw [(fits f ((members f).mp member)).2] at named
      cases named
  obtain ⟨executor, made⟩ := made
  refine ⟨{ m with
    facts, sources := m.sources.set source.sourceId source, executor := some executor }, ?_⟩
  rw [StandaloneCausalMemory.commit, novel]
  show (reindex m facts >>= _) = _
  rw [reindex, if_neg (by simp [m, StandaloneCausalMemory.new])]
  rw [show m.scope = scope from rfl, made]
  rfl

section

variable {c : Crypto} {s : Session} {documents : List RouteDocument}
  {intents : List AnswerContextIntent} {bundleId : String}

private theorem factId_of_event {d e : RouteDocument} {a b : AttestedSidecarFact}
    {source source' : CausalSourceEnvelope} (first : Compiled c s source d a)
    (second : Compiled c s source' e b)
    (same : (a.fact.key, a.fact.orbit) = (b.fact.key, b.fact.orbit)) : d.factId = e.factId := by
  rw [Prod.mk.injEq, first.key, second.key, Prod.mk.injEq] at same
  obtain ⟨⟨source, -⟩, orbit⟩ := same
  have event {d : RouteDocument} {a : AttestedSidecarFact} {source : CausalSourceEnvelope}
      (compiled : Compiled c s source d a) : a.fact.orbit =
        d.source ++ ":surface-document:" ++ toString d.factId := by
    have some_event : a.fact.eventId ≠ "" := by
      rw [compiled.eventId]
      simp [String.append_eq_empty_iff]
    rw [FactFields.orbit, if_neg some_event, compiled.eventId]
  rw [event first, event second, source] at orbit
  have digits := congrArg String.toList orbit
  simp only [String.toList_append, List.append_cancel_left_eq] at digits
  have written (n : Nat) : (toString n).toList = Nat.toDigits 10 n := by
    simp [toString, Nat.repr]
  rw [written, written] at digits
  have read := congrArg (fun text => Nat.ofDigitChars 10 text 0) digits
  simpa only [Nat.ofDigitChars_ten_toDigits] using read

variable {facts : List AttestedSidecarFact}

private theorem factIds_of_compiled {source : CausalSourceEnvelope}
    (all : List.Forall₂ (Compiled c s source) documents facts) :
    (facts.map fun item => item.fact.factId) = documents.map fun d => d.factId := by
  induction all with
  | nil => rfl
  | cons here _ ih => rw [List.map_cons, List.map_cons, here.factId, ih]

private theorem exists_of_forall₂ {α β : Type} {R : α → β → Prop} {l : List α} {l' : List β}
    (all : List.Forall₂ R l l') {b : β} (member : b ∈ l') : ∃ a ∈ l, R a b := by
  induction all with
  | nil => cases member
  | cons here _ ih =>
    rcases List.mem_cons.mp member with rfl | later
    · exact ⟨_, List.mem_cons_self, here⟩
    · obtain ⟨a, inList, related⟩ := ih later
      exact ⟨a, List.mem_cons_of_mem _ inList, related⟩

theorem admissible_of_compiled
    (ordered : documents ≠ [] ∧ Canonical (documents.map fun d => d.factId))
    (count : documents.length ≤ SidecarLimits.default.maxFactsPerBatch)
    (all : List.Forall₂ (Compiled c s (sourceOf c bundleId documents)) documents facts) :
    (s.emptySidecar c).fork.Admissible c (s.authority c) (sourceOf c bundleId documents)
      ⟨facts.insertionSort fun a b => a.fact.factId ≤ b.fact.factId, []⟩ := by
  let sorted := facts.insertionSort fun a b => a.fact.factId ≤ b.fact.factId
  have perm : sorted.Perm facts := List.perm_insertionSort _ _
  have ids := factIds_of_compiled all
  have distinct : (sorted.map fun item => item.fact.factId).Nodup := by
    rw [(perm.map fun item => item.fact.factId).nodup_iff, ids]
    exact ordered.2.imp Nat.ne_of_lt
  have each : ∀ item ∈ sorted, ∃ d, Compiled c s (sourceOf c bundleId documents) d item := by
    intro item member
    obtain ⟨d, -, good⟩ := exists_of_forall₂ all (perm.mem_iff.mp member)
    exact ⟨d, good⟩
  constructor
  case withinLimits =>
    refine ⟨?_, Nat.zero_le _⟩
    rw [show sorted.length = documents.length from perm.length_eq.trans all.length_eq.symm]
    exact count
  case nonempty =>
    rintro ⟨none, -⟩
    obtain ⟨d, member⟩ := List.exists_mem_of_ne_nil _ ordered.1
    have named : d.factId ∈ facts.map fun item => item.fact.factId := by
      rw [ids]
      exact List.mem_map_of_mem member
    obtain ⟨item, inFacts, -⟩ := List.mem_map.mp named
    have inSorted := perm.mem_iff.mpr inFacts
    rw [show sorted = [] from none] at inSorted
    cases inSorted
  case canonical =>
    have rising : (sorted.map fun item => item.fact.factId).Pairwise (· ≤ ·) :=
      List.pairwise_map.mpr (List.pairwise_insertionSort _ _)
    exact (rising.and distinct).imp fun h => Nat.lt_of_le_of_ne h.1 h.2
  case fromSource =>
    intro item member
    obtain ⟨d, good⟩ := each item member
    exact ⟨good.scope, good.fromSource⟩
  case permitted =>
    intro item member
    obtain ⟨d, good⟩ := each item member
    exact good.permitted
  case verified =>
    intro item member
    obtain ⟨d, good⟩ := each item member
    exact good.verified
  case sameAttestation =>
    intro item _ known held
    cases held
  case oneOrbit =>
    refine (List.Nodup.of_map _ distinct).map_on fun a inSorted b inSorted' same => ?_
    obtain ⟨d, first⟩ := each a inSorted
    obtain ⟨e, second⟩ := each b inSorted'
    have one := factId_of_event first second same
    rw [← first.factId, ← second.factId] at one
    exact List.inj_on_of_nodup_map distinct inSorted inSorted' one
  case lineage =>
    intro item member
    obtain ⟨d, good⟩ := each item member
    have nothing : (s.emptySidecar c).fork.previous item.fact.toFactFields = [] := rfl
    have fresh : ¬ (s.emptySidecar c).fork.attested item = true := by
      simp [attested, fork, Session.emptySidecar]
    simp [AuthorizedSidecarMemory.lineage, fresh, nothing, good.supersedes]
  case claimsOrdered => exact .nil
  case claimsAdmitted =>
    intro claim member
    cases member

structure FirstRecord (c : Crypto) (s : Session) (source : CausalSourceEnvelope)
    (documents : List RouteDocument) (r : SidecarRecord) : Prop where
  noClaim : r.completenessClaims = []
  facts : ∃ facts, r.facts = facts.insertionSort (fun a b => a.fact.factId ≤ b.fact.factId) ∧
    List.Forall₂ (Compiled c s source) documents facts

theorem applied_of_first (fits : IngestFits (s.emptyMemory c) documents intents)
    (named : bundleId ≠ "")
    (size : (contentOf documents).utf8ByteSize ≤ SidecarLimits.default.maxSourceBytes)
    (count : documents.length ≤ SidecarLimits.default.maxFactsPerBatch) :
    ∃ receipt next, (s.emptyMemory c).ingestDocuments c none documents intents (some bundleId) =
      (.ok receipt, next) ∧ receipt.state = .applied ∧
      ∃ r, next.host.durable.records = [r] ∧
        FirstRecord c s (sourceOf c bundleId documents) documents r := by
  obtain ⟨sound, -, -⟩ := sound_of_openStore (s.openStore_emptyMemory c)
  let source := sourceOf c bundleId documents
  let observed := OpenTextMemory.observeAll [] 0 intents
  have names : (observed.map fun i => i.intentId).Nodup := by
    have places : observed = observedFrom 0 intents :=
      observeAll_of_fresh fun i _ inside => by cases inside
    rw [places, map_intentId_observedFrom]
    exact fits.names
  obtain ⟨batch, facts, planned, sourceId, content, scope, compiled, all⟩ :=
    compileSidecar_of (c := c) (s := s) (show "open-text-host-ingest" ≠ "" by decide) named names
      fits.ordered.1
  let sorted := facts.insertionSort fun a b => a.fact.factId ≤ b.fact.factId
  let compilation : SidecarCompilation := ⟨sorted, []⟩
  have fit := admissible_of_compiled fits.ordered count all
  have adapted : (declarativeAdapter c (s.authority c)).compileSidecar batch = .ok compilation :=
    mapError_eq_ok.mpr compiled
  have registered : (s.registry c).get (s.authority c).adapterId = some (s.authority c) := by
    simp [Registry.get, Session.registry]
  let replayed : CausalAdapterBatch Unit := ⟨batch.sourceId, batch.content, s.scope, []⟩
  obtain ⟨d, member⟩ := List.exists_mem_of_ne_nil _ fits.ordered.1
  have sealing : CausalSourceEnvelope.sealed c replayed.sourceId replayed.content =
      .ok source := by
    simp only [replayed, sourceId, content]
    exact (CausalSourceEnvelope.sealed_eq_ok c).mpr ⟨⟨named, contentOf_ne_empty member⟩, rfl⟩
  have admitted : (s.emptySidecar c).fork.Admitted c
      (replayAdapter Unit (s.authority c) compilation) replayed (s.authority c) source
      compilation := by
    constructor
    case withinBytes =>
      simp only [replayed, content]
      exact size
    case supplied => rfl
    case trusted =>
      simp [AuthorizedSidecarMemory.trusted, fork, Session.emptySidecar]
    case scope => exact ⟨rfl, List.mem_singleton_self _⟩
    case sealing => exact sealing
    case compiled => rfl
  have some_fact : compilation.facts ≠ [] := fun none => fit.nonempty ⟨none, rfl⟩
  have acceptable : (s.emptySidecar c).fork.memory.Acceptable c source
      (compilation.facts.map fun item => item.fact) := by
    constructor
    case nonempty => simpa using some_fact
    case canonical =>
      rw [List.map_map]
      exact fit.canonical
    case fromSource =>
      intro f inFacts
      obtain ⟨item, inSorted, rfl⟩ := List.mem_map.mp inFacts
      exact fit.fromSource item inSorted
    case cited =>
      intro f inFacts
      obtain ⟨item, inSorted, rfl⟩ := List.mem_map.mp inFacts
      exact ((AttestedSidecarFact.verify_eq_true c).mp (fit.verified item inSorted)).2.2
    case sameSource =>
      intro known held
      cases held
    case sameFacts =>
      intro f _ known held
      cases held
  have uncaused : ∀ f ∈ compilation.facts.map fun item => item.fact,
      f.scope = s.scope ∧ f.causes = [] := by
    intro f inFacts
    obtain ⟨item, inSorted, rfl⟩ := List.mem_map.mp inFacts
    obtain ⟨d, -, good⟩ := exists_of_forall₂ all ((List.perm_insertionSort _ _).mem_iff.mp inSorted)
    exact ⟨good.scope, good.causes⟩
  obtain ⟨memory, committed⟩ : ∃ memory, (s.emptySidecar c).fork.memory.commit source
      (compilation.facts.map fun item => item.fact) = .ok memory :=
    exists_commit_of_new s.scope_ne_empty acceptable.nonempty acceptable.canonical uncaused
  have novel : (s.emptySidecar c).fork.memory.novel
      (compilation.facts.map fun item => item.fact) =
        compilation.facts.map fun item => item.fact := List.filter_eq_self.mpr fun f _ => rfl
  have causes : (s.emptySidecar c).fork.memory.missing
      (compilation.facts.map fun item => item.fact) = [] := by
    have none : (compilation.facts.map fun item => item.fact).flatMap (fun f => f.causes) = [] :=
      List.flatMap_eq_nil_iff.mpr fun f inFacts => (uncaused f inFacts).2
    simp [missing, novel, none]
  have ingested := ingest_eq
    (show replayed.scope = (s.emptySidecar c).fork.memory.scope from rfl) sealing acceptable
  rw [novel, if_neg acceptable.nonempty, if_pos causes, committed] at ingested
  obtain ⟨receipt, applied, taken⟩ := ingest_of admitted fit
    (.facts some_fact ingested rfl (.inl rfl))
  have recorded := Registry.ingestRecord_newRecord (c := c) (s.emptyMemory c).host.durable
    (s.authority c)
    registered (s.emptySidecar c).fork [] batch compilation
  have staged := DurableAuthorizedSidecarMemory.stageIngest_eq_ok.mpr
    ⟨rfl, registered, compilation, _, adapted, recorded.trans taken, applied, rfl⟩
  have plan : batchOf bundleId s.scope (s.authority c).purpose "open-text-host-ingest"
      (OpenTextMemory.observeAll (s.emptyMemory c).contextIntents
        (s.emptyMemory c).contextIntents.length intents) documents = .ok batch := planned
  have verified := verified_of_applied sound plan staged
  unfold OpenTextMemory.ingestDocuments
  simp only [checkIngest_eq_ok.mpr fits, ok_bind, Option.getD_some]
  rw [show (s.emptyMemory c).session = s from rfl, plan]
  simp only [Except.mapError, Host.ingest]
  rw [staged]
  simp only [Host.commit]
  rw [if_neg (not_not.mpr (.inl applied)), if_neg (not_not.mpr verified)]
  exact ⟨receipt, _, rfl, applied, _, rfl, rfl, facts, rfl, all⟩

end

end ProofRay.OpenText
