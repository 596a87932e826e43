/- What survives: the documents and intents a run of calls leaves, said without the sidecar. -/

import ProofRay.OpenText.Snapshot
import ProofRay.Sidecar.ClaimRevival
import ProofRay.Sidecar.Fibers

namespace ProofRay.OpenText

open Engine (Crypto)
open Lib.Guard
open Sidecar

/-- The documents and the observed intents that a history of calls leaves. -/
structure Survivors where
  documents : List RouteDocument
  intents : List AnswerContextIntent

namespace Survivors

variable (s : Survivors)

def put (documents : List RouteDocument) : List RouteDocument :=
  (s.documents.filter (fun d => d.factId ∉ documents.map fun d => d.factId) ++
    documents).insertionSort fun a b => a.factId ≤ b.factId

def ingest (documents : List RouteDocument) (intents : List AnswerContextIntent) :
    Except OpenTextError SidecarIngestReceipt → Survivors
  | .ok receipt =>
    if receipt.state = .applied then ⟨s.put documents, s.intents ++ intents⟩ else s
  | .error _ => s

/-- What a removal leaves: the documents it did not remove, and the intents none of whose members it
removed. -/
def purge : Except OpenTextError CausalDeleteReceipt → Survivors
  | .ok receipt =>
    if receipt.state = .purged then
      ⟨s.documents.filter fun d => d.factId ∉ receipt.removedFactIds,
        s.intents.filter fun i => ∀ id ∈ i.factIds, id ∉ receipt.removedFactIds⟩
    else s
  | .error _ => s

def after : Call → Report → Survivors
  | .ingestDocuments _ documents intents _, .ingested outcome => s.ingest documents intents outcome
  | .upsertDocuments _ documents _, .ingested outcome => s.ingest documents [] outcome
  | .updateDocument _ replacement, .ingested outcome => s.ingest [replacement] [] outcome
  | .purgeSources _ _, .purged outcome => s.purge outcome
  | .purgeBatchSourcePrefix _ _, .purged outcome => s.purge outcome
  | _, _ => s

def afterAll : Survivors → List Call → List Report → Survivors
  | s, call :: calls, report :: reports => (s.after call report).afterAll calls reports
  | s, _, _ => s

end Survivors

namespace OpenTextMemory

variable (m : OpenTextMemory)

def survivors : Survivors := ⟨m.documents, m.contextIntents⟩

def fibers : List (List Nat) := m.contextIntents.map fun i => i.factIds

def Loses (factIds : List Nat) (i : AnswerContextIntent) : Prop :=
  ∃ id ∈ i.factIds, Goes m.fibers factIds id

def TakesLast (factIds : List Nat) : Prop :=
  m.contextIntents.Pairwise fun i j => m.Loses factIds i → m.Loses factIds j

/-- What a memory keeps through a call: no document given to it has a safety policy, an update that
passes its checks is of no member of an observed intent, and a removal takes the last intents. -/
def Safe : Call → Prop
  | .ingestDocuments _ documents _ _ => ∀ d ∈ documents, d.safetyPolicy = none
  | .upsertDocuments _ documents _ => ∀ d ∈ documents, d.safetyPolicy = none
  | .updateDocument _ replacement => replacement.safetyPolicy = none ∧
      (m.UpdateFits replacement → ∀ i ∈ m.contextIntents, replacement.factId ∉ i.factIds)
  | .purgeSources _ sourceIds => m.TakesLast (m.idsOfSources sourceIds)
  | .purgeBatchSourcePrefix _ start => m.TakesLast (m.idsOfBatches start)

end OpenTextMemory

/-- A snapshot that is what the sidecar attests, over a store that holds what is live. -/
structure Sound (c : Crypto) (m : OpenTextMemory) : Prop where
  synced : m.host.Synced c
  registry : m.host.durable.registry = m.session.registry c
  reads : Reads m.session.scopeId m.session.sessionId m.host.durable.memory.attestedFacts
    m.documents m.contextIntents

section

variable {c : Crypto} {m : OpenTextMemory}

theorem Sound.reopens (sound : Sound c m) :
    OpenTextMemory.openStore c m.session m.host.store = .ok m := by
  have opened := sound.synced
  unfold Host.Synced at opened
  rw [sound.registry] at opened
  unfold OpenTextMemory.openStore
  rw [opened]
  simp only [Except.mapError, ok_bind, stateFromSidecar_of_reads sound.reads]
  rfl

theorem Sound.canonical (sound : Sound c m) : Canonical (m.documents.map fun d => d.factId) := by
  rw [sound.reads.factIds]
  exact sound.synced.canonical

theorem Sound.nodup (sound : Sound c m) : (m.documents.map fun d => d.factId).Nodup :=
  sound.canonical.imp Nat.ne_of_lt

variable {id : Nat}

theorem Sound.mem_knownIds (sound : Sound c m) :
    id ∈ m.knownIds ↔ ∃ item, m.host.durable.memory.Attests id item := by
  rw [OpenTextMemory.knownIds, sound.reads.factIds, List.mem_map]
  constructor
  · rintro ⟨item, member, rfl⟩
    obtain ⟨id, attests⟩ := mem_attestedFacts.mp member
    rw [sound.synced.factId attests]
    exact ⟨item, attests⟩
  · rintro ⟨item, attests⟩
    exact ⟨item, mem_attestedFacts.mpr ⟨id, attests⟩, sound.synced.factId attests⟩

theorem Sound.mem_knownIds_of_intent (sound : Sound c m) {i : AnswerContextIntent}
    (member : i ∈ m.contextIntents) (inside : id ∈ i.factIds) : id ∈ m.knownIds := by
  have somewhere : ∃ k, observe k i ∈ observedFrom 0 m.contextIntents :=
    exists_mem_observedFrom member
  obtain ⟨k, observed⟩ := somewhere
  obtain ⟨item, inItems, rfl, -⟩ := sound.reads.fiber _ observed id inside
  rw [OpenTextMemory.knownIds, sound.reads.factIds]
  exact List.mem_map.mpr ⟨item, inItems, rfl⟩

end

section

variable {s : Survivors} {documents : List RouteDocument}

theorem Survivors.mem_put {d : RouteDocument} : d ∈ s.put documents ↔
    d ∈ documents ∨ d ∈ s.documents ∧ d.factId ∉ documents.map fun d => d.factId := by
  rw [Survivors.put, (List.perm_insertionSort _ _).mem_iff, List.mem_append, List.mem_filter,
    decide_eq_true_eq, or_comm]

theorem Survivors.canonical_put (before : (s.documents.map fun d => d.factId).Nodup)
    (after : (documents.map fun d => d.factId).Nodup) :
    Canonical ((s.put documents).map fun d => d.factId) := by
  have rising : ((s.put documents).map fun d => d.factId).Pairwise (· ≤ ·) :=
    List.pairwise_map.mpr (List.pairwise_insertionSort _ _)
  have distinct : ((s.put documents).map fun d => d.factId).Nodup := by
    have perm := List.perm_insertionSort (fun a b : RouteDocument => a.factId ≤ b.factId)
      (s.documents.filter (fun d => d.factId ∉ documents.map fun d => d.factId) ++ documents)
    refine (perm.map fun d => d.factId).nodup_iff.mpr ?_
    rw [List.map_append, List.nodup_append]
    refine ⟨before.sublist (List.filter_sublist.map _), after, ?_⟩
    rintro id first _ second rfl
    obtain ⟨d, stays, rfl⟩ := List.mem_map.mp first
    exact of_decide_eq_true (List.mem_filter.mp stays).2 second
  exact (rising.and distinct).imp fun h => Nat.lt_of_le_of_ne h.1 h.2

theorem mergeDocuments_eq_put (before : (s.documents.map fun d => d.factId).Nodup)
    (after : (documents.map fun d => d.factId).Nodup) :
    OpenTextMemory.mergeDocuments s.documents documents = s.put documents := by
  refine eq_of_canonical (canonical_mergeDocuments before after)
    (Survivors.canonical_put before after) fun d => ?_
  rw [mem_mergeDocuments before after, Survivors.mem_put]

end

/-- What a call on a sound memory comes to: another sound memory of the same session that holds the
survivors, and an answer when the store has changed. -/
structure Settles (c : Crypto) (m next : OpenTextMemory) (returned : Prop) (s : Survivors) :
    Prop where
  sound : Sound c next
  session : next.session = m.session
  returned : next.host.store ≠ m.host.store → returned
  survivors : next.survivors = s

section

variable {c : Crypto} {m : OpenTextMemory} {documents : List RouteDocument}
  {intents : List AnswerContextIntent}

theorem Sound.settles_unmoved (sound : Sound c m) (returned : Prop) :
    Settles c m m returned m.survivors :=
  ⟨sound, rfl, fun moved => absurd rfl moved, rfl⟩

/-- What `ingest_documents` checks. -/
structure IngestFits (m : OpenTextMemory) (documents : List RouteDocument)
    (intents : List AnswerContextIntent) : Prop where
  ordered : documents ≠ [] ∧ Canonical (documents.map fun d => d.factId)
  scope : ∀ d ∈ documents, d.scopeId = m.session.scopeId
  replays : (∃ id ∈ documents.map fun d => d.factId, id ∈ m.knownIds) →
    ∀ d ∈ documents, m.known d.factId = some d
  inside : ∀ i ∈ intents, ∀ id ∈ i.factIds, id ∈ documents.map fun d => d.factId
  sessions : ∀ i ∈ intents, OneSession documents i.factIds i.sessionId
  names : (intents.map fun i => i.intentId).Nodup
  bound : ∀ i ∈ intents, ∀ prior ∈ m.knownIntent i.intentId, prior = i

theorem checkIngest_eq_ok :
    m.checkIngest documents intents = .ok () ↔ IngestFits m documents intents := by
  simp only [OpenTextMemory.checkIngest, bind_eq_ok, require_eq_ok]
  constructor
  · rintro ⟨-, ordered, -, scope, -, replays, -, inside, -, sessions, -, names, bound⟩
    exact ⟨ordered, scope, replays, inside, sessions, names, bound⟩
  · intro fits
    exact ⟨(), fits.ordered, (), fits.scope, (), fits.replays, (), fits.inside, (), fits.sessions,
      (), fits.names, fits.bound⟩

theorem mem_of_known {factId : Nat} {d : RouteDocument} (found : m.known factId = some d) :
    d ∈ m.documents ∧ d.factId = factId := by
  unfold OpenTextMemory.known at found
  exact ⟨List.mem_of_find?_eq_some found, of_decide_eq_true (List.find?_some found :)⟩

theorem names_of_new (sound : Sound c m) (fits : IngestFits m documents intents)
    (new : ∀ id ∈ documents.map fun d => d.factId, id ∉ m.knownIds) :
    ((m.contextIntents ++ intents).map fun i => i.intentId).Nodup := by
  rw [List.map_append, List.nodup_append]
  refine ⟨sound.reads.names, fits.names, ?_⟩
  rintro name before _ after rfl
  obtain ⟨k, known, named⟩ := List.mem_map.mp before
  obtain ⟨i, member, rfl⟩ := List.mem_map.mp after
  cases found : m.knownIntent i.intentId with
  | none => exact List.find?_eq_none.mp found k known (decide_eq_true named)
  | some prior =>
    have same := fits.bound i member prior found
    rw [same] at found
    obtain ⟨id, inside⟩ := List.exists_mem_of_ne_nil _ i.checked.2.2.1
    refine new id (fits.inside i member id inside) ?_
    exact sound.mem_knownIds_of_intent (List.mem_of_find?_eq_some found) inside

variable {bundleId scope purpose reference : String}
  {batch : CausalAdapterBatch SidecarDeclaration} {authority owner : SidecarAuthority}
  {receipt : SidecarIngestReceipt} {next : DurableAuthorizedSidecarMemory}

variable {observed : List SidecarObservedIntent}

theorem bears_of_adapter {compilation : SidecarCompilation}
    (planned : batchOf bundleId scope purpose reference observed documents = .ok batch)
    (compiled : (declarativeAdapter c authority).compileSidecar batch = .ok compilation) :
    compilation.completenessClaims = [] ∧
    (∀ item ∈ compilation.facts, ∃ d ∈ documents, Bears scope observed d item) ∧
    ∀ d ∈ documents, ∃ item ∈ compilation.facts, Bears scope observed d item :=
  bears_of_batchOf planned (mapError_eq_ok.mp compiled)

theorem verified_of_applied (sound : Sound c m) {observed : List SidecarObservedIntent}
    (planned : batchOf bundleId scope purpose reference observed documents = .ok batch)
    (staged : m.host.durable.stageIngest c (declarativeAdapter c authority) batch =
      .ok (owner, receipt, next)) :
    OpenTextMemory.verified c ⟨next, next.recordBytes⟩ documents := by
  obtain ⟨compilation, compiled, -, verified, -⟩ := attests_of_stageIngest sound.synced staged
  obtain ⟨-, -, borne⟩ := bears_of_adapter planned compiled
  intro d member
  obtain ⟨item', inFacts, bears⟩ := borne d member
  rw [← bears.factId]
  exact verified item' inFacts

theorem reads_of_applied (sound : Sound c m) (fits : IngestFits m documents intents)
    (plain : ∀ d ∈ documents, d.safetyPolicy = none)
    (planned : batchOf bundleId m.session.scope purpose reference
      (OpenTextMemory.observeAll m.contextIntents m.contextIntents.length intents) documents =
        .ok batch)
    (staged : m.host.durable.stageIngest c (declarativeAdapter c authority) batch =
      .ok (owner, receipt, next)) :
    ((m.contextIntents ++ intents).map fun i => i.intentId).Nodup ∧
    Reads m.session.scopeId m.session.sessionId next.memory.attestedFacts
      (m.survivors.put documents) (m.contextIntents ++ intents) := by
  obtain ⟨compilation, compiled, attests, -, some_new⟩ :=
    attests_of_stageIngest sound.synced staged
  obtain ⟨synced', -⟩ := synced_of_stageIngest sound.synced staged
  obtain ⟨no_claim, from_batch, borne⟩ := bears_of_adapter planned compiled
  have new : ∀ id ∈ documents.map fun d => d.factId, id ∉ m.knownIds := by
    obtain ⟨item, inFacts, unknown⟩ := some_new no_claim
    obtain ⟨d, member, bears⟩ := from_batch item inFacts
    intro id inside known
    have replayed := fits.replays ⟨id, inside, known⟩ d member
    obtain ⟨old, -⟩ := mem_of_known replayed
    have held : d.factId ∈ m.knownIds := List.mem_map_of_mem old
    obtain ⟨item', attests'⟩ := sound.mem_knownIds.mp held
    rw [← bears.factId] at attests'
    exact unknown item' attests'
  have names := names_of_new sound fits new
  have fresh : ∀ i ∈ intents, i.intentId ∉ m.contextIntents.map fun k => k.intentId := by
    rw [List.map_append, List.nodup_append] at names
    intro i member before
    exact names.2.2 _ before _ (List.mem_map_of_mem member) rfl
  rw [observeAll_of_fresh fresh] at from_batch borne
  have changes : Changes (toString m.session.scopeId)
      (observedFrom m.contextIntents.length intents) documents
      (documents.map fun d => d.factId) m.host.durable.memory.attestedFacts
      next.memory.attestedFacts := by
    constructor
    · intro item' member
      obtain ⟨id, attests'⟩ := mem_attestedFacts.mp member
      rcases (attests id item').mp attests' with ⟨inFacts, -⟩ | before
      · exact .inl (from_batch item' inFacts)
      · refine .inr ⟨fun inside => ?_, item', mem_attestedFacts.mpr ⟨id, before⟩, .refl _⟩
        refine new _ inside (sound.mem_knownIds.mpr ⟨item', ?_⟩)
        rw [sound.synced.factId before]
        exact before
    · intro d member
      obtain ⟨item', inFacts, bears⟩ := borne d member
      exact ⟨item', mem_attestedFacts.mpr ⟨_, (attests _ item').mpr (.inl ⟨inFacts, rfl⟩)⟩, bears⟩
    · intro item member _
      obtain ⟨id, before⟩ := mem_attestedFacts.mp member
      exact ⟨item, mem_attestedFacts.mpr ⟨id, (attests id item).mpr (.inr before)⟩, .refl _⟩
  have reads : Reads m.session.scopeId m.session.sessionId m.host.durable.memory.attestedFacts
      m.documents (m.contextIntents ++ []) := by
    rw [List.append_nil]
    exact sound.reads
  refine ⟨names, reads.change changes synced'.canonical
    (Survivors.canonical_put sound.nodup (fits.ordered.2.imp Nat.ne_of_lt))
    (fun d => Survivors.mem_put) (fun d member => ⟨fits.scope d member, plain d member⟩)
    (fun d member => List.mem_map_of_mem member) ?_ (fun i member => by cases member) ?_ names
    fits.sessions⟩
  · intro i member id inside inside'
    exact new id inside' (sound.mem_knownIds_of_intent member inside)
  · intro i member id inside
    exact List.mem_map.mp (fits.inside i member id inside)

theorem exists_mem_observeAll {known : List AnswerContextIntent} {n : Nat}
    {i : AnswerContextIntent} (member : i ∈ intents) :
    ∃ k, observe k i ∈ OpenTextMemory.observeAll known n intents := by
  induction intents generalizing n with
  | nil => cases member
  | cons j rest ih =>
    unfold OpenTextMemory.observeAll
    split
    all_goals
      rcases List.mem_cons.mp member with rfl | later
      · exact ⟨_, List.mem_cons_self⟩
      · obtain ⟨k, there⟩ := ih later
        exact ⟨k, List.mem_cons_of_mem _ there⟩

theorem observe_injective {k n : Nat} {i j : AnswerContextIntent}
    (same : observe k i = observe n j) : i = j := by
  have read := congrArg answerIntent same
  rw [answerIntent_observe, answerIntent_observe] at read
  exact Except.ok.inj read

/-- A bundle that is answered `IDEMPOTENT` is in the snapshot already. -/
theorem known_of_idempotent (sound : Sound c m) (fits : IngestFits m documents intents)
    (plain : ∀ d ∈ documents, d.safetyPolicy = none)
    (planned : batchOf bundleId m.session.scope purpose reference
      (OpenTextMemory.observeAll m.contextIntents m.contextIntents.length intents) documents =
        .ok batch)
    (staged : m.host.durable.stageIngest c (declarativeAdapter c authority) batch = .error receipt)
    (idempotent : receipt.state = .idempotent) :
    (∀ d ∈ documents, d ∈ m.documents) ∧ ∀ i ∈ intents, i ∈ m.contextIntents := by
  obtain ⟨compilation, compiled, attests⟩ :=
    attests_of_idempotent sound.synced staged idempotent
  obtain ⟨-, -, borne⟩ := bears_of_adapter planned compiled
  constructor
  · intro d member
    obtain ⟨item, inFacts, bears⟩ := borne d member
    exact sound.reads.mem_documents.mpr ⟨item,
      mem_attestedFacts.mpr ⟨_, attests item inFacts⟩, bears.documentOf_eq (plain d member)⟩
  · intro i member
    obtain ⟨id, inside⟩ := List.exists_mem_of_ne_nil _ i.checked.2.2.1
    obtain ⟨d, inDocuments, rfl⟩ := List.mem_map.mp (fits.inside i member id inside)
    obtain ⟨item, inFacts, bears⟩ := borne d inDocuments
    have somewhere : ∃ k, observe k i ∈
        OpenTextMemory.observeAll m.contextIntents m.contextIntents.length intents :=
      exists_mem_observeAll member
    obtain ⟨k, observed⟩ := somewhere
    have carried := bears.mem_intentsOf.mpr ⟨observed, inside⟩
    have held := (sound.reads.observed _).mp
      ⟨item, mem_attestedFacts.mpr ⟨_, attests item inFacts⟩, carried⟩
    obtain ⟨n, j, known, same⟩ := of_mem_observedFrom held
    exact observe_injective same ▸ known

end

end ProofRay.OpenText
