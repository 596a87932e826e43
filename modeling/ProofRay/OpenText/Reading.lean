/- When a sidecar reads back as documents and intents: what its attested facts have to say, and the
   snapshot they then give. -/

import ProofRay.OpenText.Memory

namespace ProofRay.OpenText

open Lib (Dict)
open Lib.Guard
open Sidecar

theorem eq_of_canonical {α : Type} {rank : α → Nat} {a b : List α} (left : Canonical (a.map rank))
    (right : Canonical (b.map rank)) (same : ∀ x, x ∈ a ↔ x ∈ b) : a = b := by
  have rising {l : List α} (canonical : Canonical (l.map rank)) :
      l.Pairwise fun x y => rank x < rank y := List.pairwise_map.mp canonical
  have nodup {l : List α} (canonical : Canonical (l.map rank)) : l.Nodup :=
    List.Nodup.of_map rank (canonical.imp fun h => Nat.ne_of_lt h)
  have perm := (List.perm_ext_iff_of_nodup (nodup left) (nodup right)).mpr same
  refine perm.eq_of_pairwise ?_ (rising left) (rising right)
  intro x y _ _ below above
  exact absurd below (Nat.lt_asymm above)

def intentsOf (item : AttestedSidecarFact) : List SidecarObservedIntent :=
  (item.routeMetadata.map fun m => m.observedIntents).getD []

def documentOf (scopeId : Nat) (sessionId : String) (item : AttestedSidecarFact) : DocumentFields :=
  match item.routeMetadata with
  | none => legacyDocument scopeId sessionId item.fact.toFactFields
  | some m => routedDocument item.fact.toFactFields m.toRouteFields

/-- A fact that is a document of the scope, under routing coordinates that agree with it. -/
structure Legible (scopeId : Nat) (item : AttestedSidecarFact) : Prop where
  predicate : item.fact.predicate = "surface_document"
  scope : item.fact.scope = toString scopeId
  agrees : ∀ m ∈ item.routeMetadata, m.scopeId = scopeId ∧ m.version = item.fact.version ∧
    (∀ n ∈ m.sequence, n = item.fact.observedAt) ∧ (∀ n ∈ m.eventTime, n = item.fact.eventTime)

/-- Intents, each at its place in the order of insertion, the first one at `n`. -/
def observedFrom : Nat → List AnswerContextIntent → List SidecarObservedIntent
  | _, [] => []
  | n, i :: rest => observe n i :: observedFrom (n + 1) rest

/-- Attested facts that read as these documents and these intents. -/
structure Reads (scopeId : Nat) (sessionId : String) (items : List AttestedSidecarFact)
    (documents : List RouteDocument) (intents : List AnswerContextIntent) : Prop where
  legible : ∀ item ∈ items, Legible scopeId item
  texts : (documents.map fun d => d.toDocumentFields) = items.map (documentOf scopeId sessionId)
  within : ∀ item ∈ items, ∀ i ∈ intentsOf item, item.fact.factId ∈ i.factIds
  observed : ∀ i, (∃ item ∈ items, i ∈ intentsOf item) ↔ i ∈ observedFrom 0 intents
  names : (intents.map fun i => i.intentId).Nodup
  fiber : ∀ i ∈ observedFrom 0 intents, ∀ id ∈ i.factIds,
    ∃ item ∈ items, item.fact.factId = id ∧ i ∈ intentsOf item
  session : ∀ i ∈ intents, OneSession documents i.factIds i.sessionId

theorem observedFrom_append (n : Nat) (a b : List AnswerContextIntent) :
    observedFrom n (a ++ b) = observedFrom n a ++ observedFrom (n + a.length) b := by
  induction a generalizing n with
  | nil => rfl
  | cons i a ih =>
    rw [List.cons_append, observedFrom, ih, observedFrom, List.cons_append, List.length_cons]
    congr 3
    omega

theorem map_intentId_observedFrom (n : Nat) (intents : List AnswerContextIntent) :
    ((observedFrom n intents).map fun i => i.intentId) = intents.map fun i => i.intentId := by
  induction intents generalizing n with
  | nil => rfl
  | cons i rest ih =>
    rw [observedFrom, List.map_cons, List.map_cons, ih]
    rfl

theorem map_insertionOrder_observedFrom (n : Nat) (intents : List AnswerContextIntent) :
    ((observedFrom n intents).map fun i => i.insertionOrder) = List.range' n intents.length := by
  induction intents generalizing n with
  | nil => rfl
  | cons i rest ih =>
    rw [observedFrom, List.map_cons, ih]
    rfl

theorem length_observedFrom (n : Nat) (intents : List AnswerContextIntent) :
    (observedFrom n intents).length = intents.length := by
  have names := congrArg List.length (map_intentId_observedFrom n intents)
  simpa using names

variable {intents : List AnswerContextIntent}

variable {items : List AttestedSidecarFact} {i : SidecarObservedIntent} {n : Nat}

theorem of_mem_observedFrom (member : i ∈ observedFrom n intents) :
    ∃ k, ∃ a ∈ intents, i = observe k a := by
  induction intents generalizing n with
  | nil => cases member
  | cons a rest ih =>
    rcases List.mem_cons.mp member with rfl | later
    · exact ⟨n, a, List.mem_cons_self, rfl⟩
    · obtain ⟨k, a', member', same⟩ := ih later
      exact ⟨k, a', List.mem_cons_of_mem a member', same⟩

theorem exists_mem_observedFrom {a : AnswerContextIntent} (member : a ∈ intents) :
    ∃ k, observe k a ∈ observedFrom n intents := by
  induction intents generalizing n with
  | nil => cases member
  | cons b rest ih =>
    rcases List.mem_cons.mp member with rfl | later
    · exact ⟨n, List.mem_cons_self⟩
    · obtain ⟨k, member'⟩ := ih later
      exact ⟨k, List.mem_cons_of_mem _ member'⟩

theorem mapM_answerIntent_observedFrom (n : Nat) (intents : List AnswerContextIntent) :
    (observedFrom n intents).mapM answerIntent = .ok intents := by
  induction intents generalizing n with
  | nil => rfl
  | cons i rest ih =>
    rw [observedFrom, List.mapM_cons, answerIntent_observe, ok_bind, ih]
    rfl

/-- What is gathered of occurrences, each an intent under a FactId. -/
structure Holds (s : Gathered) (pairs : List (Nat × SidecarObservedIntent)) : Prop where
  intents : ∀ name i, s.intentById.get name = some i ↔ i.intentId = name ∧ ∃ id, (id, i) ∈ pairs
  occurrences : ∀ name id, id ∈ (s.occurrences.get name).getD [] ↔
    ∃ i, i.intentId = name ∧ (id, i) ∈ pairs

def pairsOf (items : List AttestedSidecarFact) : List (Nat × SidecarObservedIntent) :=
  items.flatMap fun item => (intentsOf item).map fun i => (item.fact.factId, i)

theorem mem_pairsOf {id : Nat} :
    (id, i) ∈ pairsOf items ↔ ∃ item ∈ items, item.fact.factId = id ∧ i ∈ intentsOf item := by
  simp only [pairsOf, List.mem_flatMap, List.mem_map, Prod.mk.injEq]
  constructor
  · rintro ⟨item, member, i', observed, rfl, rfl⟩
    exact ⟨item, member, rfl, observed⟩
  · rintro ⟨item, member, rfl, observed⟩
    exact ⟨item, member, i, observed, rfl, rfl⟩

def OneName (pairs : List (Nat × SidecarObservedIntent)) : Prop :=
  ∀ p ∈ pairs, ∀ q ∈ pairs, p.2.intentId = q.2.intentId → p.2 = q.2

section

variable {scopeId : Nat} {sessionId : String} {s : Gathered}
  {pairs : List (Nat × SidecarObservedIntent)}

variable {factId : Nat}

theorem gatherIntent_of {i : SidecarObservedIntent} (holds : Holds s pairs)
    (within : factId ∈ i.factIds) (agree : OneName (pairs ++ [(factId, i)])) :
    ∃ s', gatherIntent factId s i = .ok s' ∧ s'.documents = s.documents ∧
      Holds s' (pairs ++ [(factId, i)]) := by
  have here : (factId, i) ∈ pairs ++ [(factId, i)] := by simp
  have prior : ∀ prior ∈ s.intentById.get i.intentId, prior = i := by
    intro prior found
    obtain ⟨same, id, member⟩ := (holds.intents _ _).mp found
    exact agree (id, prior) (List.mem_append_left _ member) (factId, i) here same
  let after : Gathered :=
    { s with
      intentById := s.intentById.set i.intentId i
      occurrences := s.occurrences.set i.intentId
        (factId :: (s.occurrences.get i.intentId).getD []) }
  refine ⟨after, ?_, rfl, ?_⟩
  · unfold gatherIntent
    rw [require_of within, ok_bind, require_of prior, ok_bind]
    rfl
  · constructor
    · intro name j
      simp only [after, Dict.get_set, List.mem_append, List.mem_singleton, Prod.mk.injEq]
      constructor
      · intro found
        split at found
        · rename_i same
          obtain rfl := Option.some.inj found
          exact ⟨same, factId, .inr ⟨rfl, rfl⟩⟩
        · obtain ⟨same, id, member⟩ := (holds.intents _ _).mp found
          exact ⟨same, id, .inl member⟩
      · rintro ⟨rfl, id, member | ⟨rfl, rfl⟩⟩
        · split
          · rename_i same
            have there : (id, j) ∈ pairs ++ [(factId, i)] := List.mem_append_left _ member
            exact congrArg some (agree (factId, i) here (id, j) there same)
          · exact (holds.intents _ _).mpr ⟨rfl, id, member⟩
        · exact if_pos rfl
    · intro name id
      simp only [after, Dict.get_set, List.mem_append, List.mem_singleton, Prod.mk.injEq]
      by_cases same : i.intentId = name
      · subst same
        simp only [if_true, Option.getD_some, List.mem_cons, holds.occurrences]
        constructor
        · rintro (rfl | ⟨j, named, member⟩)
          · exact ⟨i, rfl, .inr ⟨rfl, rfl⟩⟩
          · exact ⟨j, named, .inl member⟩
        · rintro ⟨j, named, member | ⟨rfl, -⟩⟩
          · exact .inr ⟨j, named, member⟩
          · exact .inl rfl
      · simp only [if_neg same, holds.occurrences]
        constructor
        · rintro ⟨j, named, member⟩
          exact ⟨j, named, .inl member⟩
        · rintro ⟨j, named, member | ⟨rfl, rfl⟩⟩
          · exact ⟨j, named, member⟩
          · exact absurd named same

theorem OneName.sublist {a b : List (Nat × SidecarObservedIntent)} (agree : OneName b)
    (within : ∀ p ∈ a, p ∈ b) : OneName a :=
  fun p inA q inA' same => agree p (within p inA) q (within q inA') same

theorem foldlM_gatherIntent_of {intents : List SidecarObservedIntent} (holds : Holds s pairs)
    (within : ∀ i ∈ intents, factId ∈ i.factIds)
    (agree : OneName (pairs ++ intents.map fun i => (factId, i))) :
    ∃ s', intents.foldlM (gatherIntent factId) s = .ok s' ∧ s'.documents = s.documents ∧
      Holds s' (pairs ++ intents.map fun i => (factId, i)) := by
  induction intents generalizing s pairs with
  | nil => exact ⟨s, rfl, rfl, by simpa using holds⟩
  | cons i rest ih =>
    have split : pairs ++ (i :: rest).map (fun i => (factId, i)) =
        (pairs ++ [(factId, i)]) ++ rest.map fun i => (factId, i) := by simp
    rw [split] at agree ⊢
    obtain ⟨s', step, same, holds'⟩ := gatherIntent_of holds (within i List.mem_cons_self)
      (agree.sublist fun p member => List.mem_append_left _ member)
    obtain ⟨s'', run, same', holds''⟩ :=
      ih holds' (fun j member => within j (List.mem_cons_of_mem i member)) agree
    refine ⟨s'', ?_, same'.trans same, holds''⟩
    rw [List.foldlM_cons, step, ok_bind, run]

theorem gatherFact_of {item : AttestedSidecarFact} {document : RouteDocument}
    (holds : Holds s pairs) (legible : Legible scopeId item)
    (same : document.toDocumentFields = documentOf scopeId sessionId item)
    (within : ∀ i ∈ intentsOf item, item.fact.factId ∈ i.factIds)
    (agree : OneName (pairs ++ (intentsOf item).map fun i => (item.fact.factId, i))) :
    ∃ s', gatherFact scopeId sessionId s item = .ok s' ∧ s'.documents = s.documents ++ [document] ∧
      Holds s' (pairs ++ (intentsOf item).map fun i => (item.fact.factId, i)) := by
  have made : RouteDocument.make (documentOf scopeId sessionId item) = .ok document :=
    RouteDocument.make_eq_ok.mpr same
  unfold gatherFact
  simp only [require_of (show item.fact.predicate = "surface_document" ∧
    item.fact.scope = toString scopeId from ⟨legible.predicate, legible.scope⟩), ok_bind]
  cases carried : item.routeMetadata with
  | none =>
    simp only [documentOf, carried] at made
    simp only [intentsOf, carried, Option.map_none, Option.getD_none, List.map_nil, List.append_nil]
    exact ⟨{ s with documents := s.documents ++ [document] }, by rw [made]; rfl, rfl,
      holds.intents, holds.occurrences⟩
  | some m =>
    simp only [documentOf, carried] at made
    simp only [intentsOf, carried, Option.map_some, Option.getD_some] at within agree ⊢
    rw [require_of (legible.agrees m carried), ok_bind, made]
    simp only [Except.mapError, ok_bind]
    have onward : Holds { s with documents := s.documents ++ [document] } pairs :=
      ⟨holds.intents, holds.occurrences⟩
    exact foldlM_gatherIntent_of onward within agree

theorem foldlM_gatherFact_of {items : List AttestedSidecarFact} {documents : List RouteDocument}
    (holds : Holds s pairs) (legible : ∀ item ∈ items, Legible scopeId item)
    (same : (documents.map fun d => d.toDocumentFields) = items.map (documentOf scopeId sessionId))
    (within : ∀ item ∈ items, ∀ i ∈ intentsOf item, item.fact.factId ∈ i.factIds)
    (agree : OneName (pairs ++ pairsOf items)) :
    ∃ s', items.foldlM (gatherFact scopeId sessionId) s = .ok s' ∧
      s'.documents = s.documents ++ documents ∧ Holds s' (pairs ++ pairsOf items) := by
  induction items generalizing s pairs documents with
  | nil =>
    obtain rfl : documents = [] := by simpa using same
    exact ⟨s, rfl, (List.append_nil _).symm, by simpa [pairsOf] using holds⟩
  | cons item rest ih =>
    obtain ⟨document, later, rfl, first, same'⟩ := List.map_eq_cons_iff.mp same
    have split : pairs ++ pairsOf (item :: rest) =
        (pairs ++ (intentsOf item).map fun i => (item.fact.factId, i)) ++ pairsOf rest := by
      simp [pairsOf]
    rw [split] at agree ⊢
    obtain ⟨s', step, documents', holds'⟩ := gatherFact_of holds
      (legible item List.mem_cons_self) first (within item List.mem_cons_self)
      (agree.sublist fun p member => List.mem_append_left _ member)
    obtain ⟨s'', run, documents'', holds''⟩ := ih holds'
      (fun item' member => legible item' (List.mem_cons_of_mem item member)) same'
      (fun item' member => within item' (List.mem_cons_of_mem item member)) agree
    refine ⟨s'', ?_, ?_, holds''⟩
    · rw [List.foldlM_cons, step, ok_bind, run]
    · rw [documents'', documents', List.append_assoc]
      rfl

end

private theorem forM_of_forall {α ε : Type} {f : α → Except ε Unit} {l : List α}
    (each : ∀ a ∈ l, f a = .ok ()) : l.forM f = .ok () := by
  induction l with
  | nil => rfl
  | cons a l ih =>
    show (f a >>= fun _ => l.forM f) = .ok ()
    rw [each a List.mem_cons_self, ok_bind]
    exact ih fun a' member => each a' (List.mem_cons_of_mem a member)

theorem stateFromSidecar_of_reads {scopeId : Nat} {sessionId : String}
    {documents : List RouteDocument} (reads : Reads scopeId sessionId items documents intents) :
    stateFromSidecar scopeId sessionId items = .ok (documents, intents) := by
  let ordered := observedFrom 0 intents
  have orders : (ordered.map fun i => i.insertionOrder) = List.range ordered.length := by
    rw [map_insertionOrder_observedFrom, length_observedFrom, List.range_eq_range']
  have rising : Canonical (ordered.map fun i => i.insertionOrder) := by
    rw [orders]
    exact List.pairwise_lt_range
  have names : (ordered.map fun i => i.intentId).Nodup := by
    rw [map_intentId_observedFrom]
    exact reads.names
  have observed : ∀ id i, (id, i) ∈ pairsOf items → i ∈ ordered := by
    intro id i member
    obtain ⟨item, inItems, -, carried⟩ := mem_pairsOf.mp member
    exact (reads.observed i).mp ⟨item, inItems, carried⟩
  have agree : OneName ([] ++ pairsOf items) := by
    rintro ⟨id, i⟩ first ⟨id', j⟩ second same
    exact List.inj_on_of_nodup_map names (observed id i first) (observed id' j second) same
  have start : Holds ⟨[], .empty, .empty⟩ [] := ⟨by simp, by simp⟩
  obtain ⟨s, run, same, holds⟩ :=
    foldlM_gatherFact_of start reads.legible reads.texts reads.within agree
  simp only [List.nil_append] at same holds
  have gathered : ∀ i, i ∈ s.intentById.items.map Prod.snd ↔ i ∈ ordered := by
    intro i
    simp only [List.mem_map, Prod.exists, exists_eq_right, ← Dict.get_eq_some_iff,
      holds.intents, exists_eq_left', mem_pairsOf]
    rw [← reads.observed]
    constructor
    · rintro ⟨id, item, member, -, carried⟩
      exact ⟨item, member, carried⟩
    · rintro ⟨item, member, carried⟩
      exact ⟨_, item, member, rfl, carried⟩
  have nodup : (s.intentById.items.map Prod.snd).Nodup := by
    refine List.Nodup.of_map (fun i => i.intentId) ?_
    have keyed : ((s.intentById.items.map Prod.snd).map fun i => i.intentId) =
        s.intentById.items.map Prod.fst := by
      rw [List.map_map]
      refine List.map_congr_left fun e member => ?_
      exact ((holds.intents e.1 e.2).mp ((Dict.get_eq_some_iff _ _ _).mpr member)).1
    rw [keyed]
    exact s.intentById.nodup
  have sorted : ((s.intentById.items.map Prod.snd).insertionSort
      fun a b => a.insertionOrder ≤ b.insertionOrder) = ordered := by
    have perm := (List.perm_insertionSort (fun a b : SidecarObservedIntent =>
      a.insertionOrder ≤ b.insertionOrder) (s.intentById.items.map Prod.snd)).trans
        ((List.perm_ext_iff_of_nodup nodup (List.Nodup.of_map _ names)).mpr gathered)
    have ascending : ordered.Pairwise fun a b => a.insertionOrder ≤ b.insertionOrder :=
      (List.pairwise_map.mp rising).imp fun below => Nat.le_of_lt below
    refine perm.eq_of_pairwise ?_ (List.pairwise_insertionSort _ _) ascending
    intro a b inSorted inOrdered below above
    have inOrdered' : a ∈ ordered := perm.mem_iff.mp inSorted
    refine List.inj_on_of_nodup_map (f := fun i => i.insertionOrder) ?_ inOrdered' inOrdered
      (Nat.le_antisymm below above)
    exact rising.imp fun h => Nat.ne_of_lt h
  have checks : (s.intentById.items.map Prod.snd).forM (checkIntent s) = .ok () := by
    refine forM_of_forall fun i member => ?_
    have inOrdered := (gathered i).mp member
    obtain ⟨k, a, inIntents, rfl⟩ := of_mem_observedFrom inOrdered
    have seen : ∀ id, id ∈ (s.occurrences.get a.intentId).getD [] ↔ id ∈ a.factIds := by
      intro id
      rw [holds.occurrences]
      constructor
      · rintro ⟨j, named, member'⟩
        obtain ⟨item, inItems, rfl, carried⟩ := mem_pairsOf.mp member'
        have inOrdered' := observed _ j member'
        have one : j = observe k a := List.inj_on_of_nodup_map names inOrdered' inOrdered named
        have inside := reads.within item inItems j carried
        rw [one] at inside
        exact inside
      · intro inside
        obtain ⟨item, inItems, here, carried⟩ := reads.fiber _ inOrdered id inside
        exact ⟨observe k a, rfl, mem_pairsOf.mpr ⟨item, inItems, here, carried⟩⟩
    have covered : ∀ id ∈ a.factIds, id ∈ s.documents.map fun d => d.factId := by
      intro id inside
      obtain ⟨item, inItems, rfl, -⟩ := reads.fiber _ inOrdered id inside
      have text : documentOf scopeId sessionId item ∈
          documents.map fun d => d.toDocumentFields := by
        rw [reads.texts]
        exact List.mem_map.mpr ⟨item, inItems, rfl⟩
      obtain ⟨d, inDocuments, fields⟩ := List.mem_map.mp text
      rw [same]
      refine List.mem_map.mpr ⟨d, inDocuments, ?_⟩
      rw [fields]
      unfold documentOf
      split <;> rfl
    let occurrences := (s.occurrences.get (observe k a).intentId).getD []
    have fiber : (∀ id ∈ (observe k a).factIds, id ∈ occurrences) ∧
        (∀ id ∈ occurrences, id ∈ (observe k a).factIds) ∧
        ∀ id ∈ (observe k a).factIds, id ∈ s.documents.map fun d => d.factId :=
      ⟨fun id inside => (seen id).mpr inside, fun id inside => (seen id).mp inside, covered⟩
    have session : OneSession s.documents (observe k a).factIds (observe k a).sessionId := by
      rw [same]
      exact reads.session a inIntents
    unfold checkIntent
    simp only
    rw [require_of fiber, ok_bind, require_of session]
  unfold stateFromSidecar
  simp only [run, ok_bind, checks, sorted, require_of orders]
  rw [show ordered.mapM answerIntent = .ok intents from mapM_answerIntent_observedFrom 0 intents]
  simp only [Except.mapError, ok_bind, same]
  rfl

end ProofRay.OpenText
