/- Open-text memories through runs: a memory asked for no more than it can keep reopens as its
   survivors. -/

import ProofRay.OpenText.Survivors

namespace ProofRay.OpenText

open Engine (Crypto)
open Lib (Machine)
open Lib.Guard
open Sidecar
open DurableAuthorizedSidecarMemory (openStore_of_stageIngest openStore_of_stagePurge
  openStore_of_stageReplace reject state_of_stageIngest state_of_stagePurge state_of_stageReplace)
open OpenTextMemory (alreadyActive fibers idsOfBatches idsOfSources knownIds mergeDocuments
  mergeIntents openStore purgeFacts replaceFacts reread)

section

variable {c : Crypto} {m : OpenTextMemory} {documents : List RouteDocument}

private theorem verified_of {next : DurableAuthorizedSidecarMemory}
    (each : ∀ d ∈ documents, next.memory.verifyAttestation c d.factId = true) :
    OpenTextMemory.verified c ⟨next, next.recordBytes⟩ documents := each

theorem settles_of_ingestDocuments (sound : Sound c m)
    (plain : ∀ d ∈ documents, d.safetyPolicy = none) (failure : Option String)
    (intents : List AnswerContextIntent) (bundleId : Option String) :
    Settles c m (m.ingestDocuments c failure documents intents bundleId).2
      (∃ receipt, (m.ingestDocuments c failure documents intents bundleId).1 = .ok receipt)
      (m.survivors.ingest documents intents
        (m.ingestDocuments c failure documents intents bundleId).1) := by
  unfold OpenTextMemory.ingestDocuments
  simp only
  split
  · exact sound.settles_unmoved _
  · rename_i batch planned
    simp only [bind_eq_ok, mapError_eq_ok] at planned
    obtain ⟨_, checks, planned⟩ := planned
    have fits := checkIngest_eq_ok.mp checks
    have distinct : (documents.map fun d => d.factId).Nodup := fits.ordered.2.imp Nat.ne_of_lt
    cases staged : m.host.durable.stageIngest c
        (declarativeAdapter c (m.session.authority c)) batch with
    | error receipt =>
      have notApplied := state_of_stageIngest staged
      have still : m.survivors.ingest documents intents (.ok receipt) = m.survivors :=
        if_neg notApplied
      simp only [Host.ingest, staged]
      by_cases idempotent : receipt.state = .idempotent
      · rw [if_neg (not_not.mpr (.inr idempotent))]
        obtain ⟨held, known⟩ := known_of_idempotent sound fits plain planned staged idempotent
        have sameDocuments : mergeDocuments m.documents documents = m.documents := by
          refine eq_of_canonical (canonical_mergeDocuments sound.nodup distinct) sound.canonical
            fun d => ?_
          rw [mem_mergeDocuments sound.nodup distinct]
          constructor
          · rintro (member | ⟨member, -⟩)
            · exact held d member
            · exact member
          · intro member
            by_cases inside : d.factId ∈ documents.map fun d => d.factId
            · obtain ⟨e, inBundle, same⟩ := List.mem_map.mp inside
              have one := List.inj_on_of_nodup_map sound.nodup (held e inBundle) member same
              exact .inl (one ▸ inBundle)
            · exact .inr ⟨member, inside⟩
        have sameIntents : (if intents = [] then m.contextIntents
            else mergeIntents m.contextIntents intents) = m.contextIntents := by
          split
          · rfl
          · exact mergeIntents_of_known sound.reads.names known
        rw [sameDocuments, sameIntents]
        split
        · exact sound.settles_unmoved _
        · rw [still]
          exact sound.settles_unmoved _
      · rw [if_pos (not_or.mpr ⟨notApplied, idempotent⟩), still]
        exact sound.settles_unmoved _
    | ok stage =>
      obtain ⟨owner, receipt, next⟩ := stage
      obtain ⟨-, applied, -⟩ :=
        openStore_of_stageIngest sound.synced staged
      obtain ⟨synced', registry⟩ := synced_of_stageIngest sound.synced staged
      obtain ⟨names, reads⟩ := reads_of_applied sound fits plain planned staged
      have verified := verified_of_applied sound planned staged
      simp only [Host.ingest, staged]
      cases failure with
      | some error =>
        simp only [Host.commit]
        rw [if_pos (by simp [reject])]
        exact sound.settles_unmoved _
      | none =>
        simp only [Host.commit]
        have merged : mergeDocuments m.survivors.documents documents =
          m.survivors.put documents := mergeDocuments_eq_put sound.nodup distinct
        rw [show m.survivors.documents = m.documents from rfl] at merged
        rw [if_neg (not_not.mpr (.inl applied)), if_neg (not_not.mpr verified), merged]
        have order : (if intents = [] then m.contextIntents
            else mergeIntents m.contextIntents intents) =
              m.contextIntents ++ intents := by
          split
          · rename_i none
            rw [none, List.append_nil]
          · exact mergeIntents_of_fresh names
        rw [order]
        refine ⟨⟨synced', registry.trans sound.registry, reads⟩, rfl, fun _ => ⟨receipt, rfl⟩, ?_⟩
        exact (if_pos applied).symm

theorem settles_of_replaceFacts (sound : Sound c m)
    (plain : ∀ d ∈ documents, d.scopeId = m.session.scopeId ∧ d.safetyPolicy = none)
    (ordered : Canonical (documents.map fun d => d.factId)) {remove : List Nat}
    (removes : ∀ id, id ∈ remove ↔ id ∈ documents.map (fun d => d.factId) ∧ id ∈ m.knownIds)
    (apart : ∀ i ∈ m.contextIntents, ∀ id ∈ i.factIds, id ∉ documents.map fun d => d.factId)
    (failure : Option String) (reference bundleId failed : String) :
    Settles c m (m.replaceFacts c failure reference bundleId failed documents remove).2
      (∃ receipt,
        (m.replaceFacts c failure reference bundleId failed documents remove).1 = .ok receipt)
      (m.survivors.ingest documents []
        (m.replaceFacts c failure reference bundleId failed documents remove).1) := by
  unfold replaceFacts
  simp only
  split
  · exact sound.settles_unmoved _
  · rename_i batch planned
    cases staged : m.host.durable.stageReplace c
        (declarativeAdapter c (m.session.authority c)) batch remove with
    | error outcome =>
      simp only [Host.replaceFactIds, staged]
      cases outcome with
      | error e => exact sound.settles_unmoved _
      | ok receipt =>
        have notApplied := state_of_stageReplace staged
        have still : m.survivors.ingest documents [] (.ok receipt) = m.survivors :=
          if_neg notApplied
        simp only [if_pos notApplied, still]
        exact sound.settles_unmoved _
    | ok stage =>
      obtain ⟨owner, receipt, next⟩ := stage
      obtain ⟨-, applied, -⟩ :=
        openStore_of_stageReplace sound.synced staged
      obtain ⟨synced', registry⟩ := synced_of_stageReplace sound.synced staged
      obtain ⟨compilation, compiled, source, brought, kept, verified⟩ :=
        attests_of_stageReplace sound.synced staged
      obtain ⟨-, from_batch, borne⟩ := bears_of_adapter planned compiled
      have changes : Changes (toString m.session.scopeId)
          (observedFrom m.contextIntents.length []) documents (documents.map fun d => d.factId)
          m.host.durable.memory.attestedFacts next.memory.attestedFacts := by
        constructor
        · intro item' member
          obtain ⟨id, attests'⟩ := mem_attestedFacts.mp member
          rcases source id item' attests' with ⟨inFacts, -⟩ | ⟨stays, item, before, like⟩
          · exact .inl (from_batch item' inFacts)
          · refine .inr ⟨fun inside => ?_, item, mem_attestedFacts.mpr ⟨id, before⟩, like⟩
            rw [synced'.factId attests'] at inside
            exact stays ((removes id).mpr ⟨inside, sound.mem_knownIds.mpr ⟨item, before⟩⟩)
        · intro d member
          obtain ⟨item', inFacts, bears⟩ := borne d member
          exact ⟨item', mem_attestedFacts.mpr ⟨_, brought item' inFacts⟩, bears⟩
        · intro item member outside
          obtain ⟨id, before⟩ := mem_attestedFacts.mp member
          rw [sound.synced.factId before] at outside
          obtain ⟨item', after, like⟩ :=
            kept id item before fun removed => outside ((removes id).mp removed).1
          exact ⟨item', mem_attestedFacts.mpr ⟨id, after⟩, like⟩
      have reads : Reads m.session.scopeId m.session.sessionId next.memory.attestedFacts
          (m.survivors.put documents) (m.contextIntents ++ []) := by
        have before : Reads m.session.scopeId m.session.sessionId
            m.host.durable.memory.attestedFacts m.documents (m.contextIntents ++ []) := by
          rw [List.append_nil]
          exact sound.reads
        refine before.change changes synced'.canonical
          (Survivors.canonical_put sound.nodup (ordered.imp Nat.ne_of_lt))
          (fun d => Survivors.mem_put) plain (fun d member => List.mem_map_of_mem member) apart
          (fun i member => by cases member) (fun i member => by cases member) ?_
          (fun i member => by cases member)
        rw [List.append_nil]
        exact sound.reads.names
      have each : ∀ d ∈ documents, next.memory.verifyAttestation c d.factId = true := by
        intro d member
        obtain ⟨item', inFacts, bears⟩ := borne d member
        rw [← bears.factId]
        exact verified item' inFacts
      simp only [Host.replaceFactIds, staged]
      cases failure with
      | some error =>
        simp only [Host.commit]
        rw [if_pos (by simp [reject])]
        exact sound.settles_unmoved _
      | none =>
        simp only [Host.commit]
        rw [if_neg (not_not.mpr applied), if_neg (not_not.mpr (verified_of each)),
          reread, stateFromSidecar_of_reads reads]
        refine ⟨⟨synced', registry.trans sound.registry, reads⟩, rfl, fun _ => ⟨receipt, rfl⟩, ?_⟩
        exact (if_pos applied).symm

private theorem split_of_pairwise {α : Type} {p : α → Prop} [DecidablePred p] {l : List α}
    (last : l.Pairwise fun a b => p a → p b) :
    l = (l.filter fun a => ¬ p a) ++ l.filter fun a => p a := by
  induction l with
  | nil => rfl
  | cons a l ih =>
    obtain ⟨first, rest⟩ := List.pairwise_cons.mp last
    by_cases goes : p a
    · have none : ((a :: l).filter fun b => ¬ p b) = [] := by
        refine List.filter_eq_nil_iff.mpr fun b member => ?_
        rcases List.mem_cons.mp member with rfl | later
        · simp [goes]
        · simp [first b later goes]
      have all : ((a :: l).filter fun b => p b) = a :: l := by
        refine List.filter_eq_self.mpr fun b member => ?_
        rcases List.mem_cons.mp member with rfl | later
        · simp [goes]
        · simp [first b later goes]
      rw [none, all, List.nil_append]
    · rw [List.filter_cons_of_pos (by simp [goes]), List.filter_cons_of_neg (by simp [goes]),
        List.cons_append, ← ih rest]

variable {factIds : List Nat}

theorem Sound.mem_purgeSelection (sound : Sound c m) (known : ∀ id ∈ factIds, id ∈ m.knownIds)
    {id : Nat} :
    id ∈ purgeSelection m.host.durable.memory.attestedFacts factIds ↔ Goes m.fibers factIds id := by
  rw [Sidecar.mem_purgeSelection]
  have same : ∀ fiber, fiber ∈ (observedIntents m.host.durable.memory.attestedFacts).map
      (fun i => i.factIds) ↔ fiber ∈ m.fibers := by
    intro fiber
    simp only [fibers, observedIntents, List.mem_map, List.mem_flatMap]
    constructor
    · rintro ⟨i, ⟨item, member, carried⟩, rfl⟩
      obtain ⟨k, a, inIntents, rfl⟩ :=
        of_mem_observedFrom ((sound.reads.observed i).mp ⟨item, member, carried⟩)
      exact ⟨a, inIntents, rfl⟩
    · rintro ⟨a, inIntents, rfl⟩
      have somewhere : ∃ k, observe k a ∈ observedFrom 0 m.contextIntents :=
        exists_mem_observedFrom inIntents
      obtain ⟨k, observed⟩ := somewhere
      obtain ⟨item, member, carried⟩ := (sound.reads.observed _).mpr observed
      exact ⟨observe k a, ⟨item, member, carried⟩, rfl⟩
  have all : ∀ id ∈ factIds, id ∈ factIds.filter fun id =>
      id ∈ m.host.durable.memory.attestedFacts.map fun item => item.fact.factId := by
    intro id member
    refine List.mem_filter.mpr ⟨member, decide_eq_true ?_⟩
    rw [← sound.reads.factIds]
    exact known id member
  constructor
  · intro goes
    exact goes.mono (fun fiber member => (same fiber).mp member)
      fun id member => (List.mem_filter.mp member).1
  · intro goes
    exact goes.mono (fun fiber member => (same fiber).mpr member) all

theorem settles_of_purgeFacts (sound : Sound c m) (known : ∀ id ∈ factIds, id ∈ m.knownIds)
    (last : m.TakesLast factIds) (failure : Option String) (identity notFound : String) :
    Settles c m (m.purgeFacts c failure factIds identity notFound).2
      (∃ receipt, (m.purgeFacts c failure factIds identity notFound).1 = .ok receipt)
      (m.survivors.purge (m.purgeFacts c failure factIds identity notFound).1) := by
  unfold purgeFacts
  split
  · exact sound.settles_unmoved _
  · cases staged : m.host.durable.stagePurge c factIds identity with
    | error outcome =>
      simp only [Host.purgeFactIds, staged]
      cases outcome with
      | error e => exact sound.settles_unmoved _
      | ok receipt =>
        have notPurged := state_of_stagePurge staged
        have still : m.survivors.purge (.ok receipt) = m.survivors := if_neg notPurged
        simp only [if_pos notPurged, still]
        exact sound.settles_unmoved _
    | ok stage =>
      obtain ⟨receipt, next⟩ := stage
      obtain ⟨-, purged, -⟩ :=
        openStore_of_stagePurge sound.synced staged
      obtain ⟨synced', registry⟩ := synced_of_stagePurge sound.synced staged
      obtain ⟨retains, removed⟩ := attests_of_stagePurge sound.synced staged
      have goes (id : Nat) : id ∈ receipt.removedFactIds ↔ Goes m.fibers factIds id :=
        (removed id).trans (sound.mem_purgeSelection known)
      let gone := receipt.removedFactIds
      let stay := m.contextIntents.filter fun i => ∀ id ∈ i.factIds, id ∉ gone
      let go := m.contextIntents.filter fun i => ∃ id ∈ i.factIds, id ∈ gone
      have parts : m.contextIntents = stay ++ go := by
        have last' : m.contextIntents.Pairwise fun i j =>
            (∃ id ∈ i.factIds, id ∈ gone) → ∃ id ∈ j.factIds, id ∈ gone := by
          refine last.imp fun follows => ?_
          rintro ⟨id, inside, away⟩
          obtain ⟨id', inside', away'⟩ := follows ⟨id, inside, (goes id).mp away⟩
          exact ⟨id', inside', (goes id').mpr away'⟩
        refine (split_of_pairwise last').trans (congrArg (· ++ go) ?_)
        refine List.filter_congr fun i _ => ?_
        simp
      have changes : Changes (toString m.session.scopeId) (observedFrom stay.length []) [] gone
          m.host.durable.memory.attestedFacts next.memory.attestedFacts := by
        constructor
        · intro item' member
          obtain ⟨id, attests'⟩ := mem_attestedFacts.mp member
          obtain ⟨stays, item, before, like⟩ := retains.gone id item' attests'
          refine .inr ⟨?_, item, mem_attestedFacts.mpr ⟨id, before⟩, like⟩
          rw [synced'.factId attests', removed id]
          exact stays
        · intro d member
          cases member
        · intro item member outside
          obtain ⟨id, before⟩ := mem_attestedFacts.mp member
          rw [sound.synced.factId before, removed id] at outside
          obtain ⟨item', after, like⟩ := retains.kept id item before outside
          exact ⟨item', mem_attestedFacts.mpr ⟨id, after⟩, like⟩
      have reads : Reads m.session.scopeId m.session.sessionId next.memory.attestedFacts
          (m.documents.filter fun d => d.factId ∉ gone) (stay ++ []) := by
        refine (parts ▸ sound.reads).change changes synced'.canonical ?_ (fun d => ?_)
          (fun d member => by cases member) (fun d member => by cases member) ?_ ?_
          (fun i member => by cases member) ?_ (fun i member => by cases member)
        · exact sound.canonical.sublist (List.filter_sublist.map _)
        · simp
        · intro i member
          exact of_decide_eq_true (List.mem_filter.mp member).2
        · intro i member id inside
          obtain ⟨inIntents, touched⟩ := List.mem_filter.mp member
          obtain ⟨id', inside', away⟩ := of_decide_eq_true touched
          refine (goes id).mpr (.follows ?_ ((goes id').mp away) inside' inside)
          exact List.mem_map_of_mem inIntents
        · rw [List.append_nil]
          exact sound.reads.names.sublist (List.filter_sublist.map _)
      rw [List.append_nil] at reads
      simp only [Host.purgeFactIds, staged]
      cases failure with
      | some error =>
        simp only [Host.commit]
        rw [if_pos (by simp)]
        exact sound.settles_unmoved _
      | none =>
        simp only [Host.commit]
        rw [if_neg (not_not.mpr purged), reread, stateFromSidecar_of_reads reads]
        refine ⟨⟨synced', registry.trans sound.registry, reads⟩, rfl, fun _ => ⟨receipt, rfl⟩, ?_⟩
        exact (if_pos purged).symm

theorem settles_of_updateDocument (sound : Sound c m) {replacement : RouteDocument}
    (plain : replacement.safetyPolicy = none)
    (apart : m.UpdateFits replacement → ∀ i ∈ m.contextIntents, replacement.factId ∉ i.factIds)
    (failure : Option String) :
    Settles c m (m.updateDocument c failure replacement).2
      (∃ receipt, (m.updateDocument c failure replacement).1 = .ok receipt)
      (m.survivors.ingest [replacement] [] (m.updateDocument c failure replacement).1) := by
  unfold OpenTextMemory.updateDocument
  split
  · rename_i previous found
    have member : previous ∈ m.documents ∧ previous.factId = replacement.factId := by
      have inFilter : previous ∈ m.documents.filter fun d => d.factId = replacement.factId := by
        rw [found]
        exact List.mem_singleton_self previous
      simpa using inFilter
    split
    · have still : m.survivors.ingest [replacement] []
          (.ok (m.alreadyActive c [replacement] "replacement is already the active version")) =
            m.survivors := by
        rw [Survivors.ingest, if_neg (by simp [alreadyActive])]
      simp only [still]
      exact sound.settles_unmoved _
    · rename_i differs
      split
      · exact sound.settles_unmoved _
      · rename_i allowed
        obtain ⟨scope, source, may⟩ := not_not.mp allowed
        have fits : m.UpdateFits replacement := ⟨previous, found, differs, scope, source, may⟩
        have alone : Canonical ([replacement].map fun d => d.factId) :=
          List.pairwise_singleton _ _
        refine settles_of_replaceFacts sound ?_ alone ?_ ?_ _ _ _ _
        · intro d inBatch
          rw [List.mem_singleton.mp inBatch]
          exact ⟨scope, plain⟩
        · intro id
          simp only [List.map_cons, List.map_nil, List.mem_singleton, ← member.2]
          constructor
          · rintro rfl
            exact ⟨rfl, List.mem_map_of_mem member.1⟩
          · exact fun here => here.1
        · intro i inIntents id inside inBatch
          rw [List.map_cons, List.map_nil, List.mem_singleton] at inBatch
          exact apart fits i inIntents (inBatch ▸ inside)
  · exact sound.settles_unmoved _

theorem settles_of_upsertDocuments (sound : Sound c m)
    (plain : ∀ d ∈ documents, d.safetyPolicy = none) (failure bundleId : Option String) :
    Settles c m (m.upsertDocuments c failure documents bundleId).2
      (∃ receipt, (m.upsertDocuments c failure documents bundleId).1 = .ok receipt)
      (m.survivors.ingest documents [] (m.upsertDocuments c failure documents bundleId).1) := by
  unfold OpenTextMemory.upsertDocuments
  simp only
  split
  · exact sound.settles_unmoved _
  · rename_i ordered
    split
    · exact sound.settles_unmoved _
    · rename_i scope
      split
      · exact settles_of_ingestDocuments sound plain failure [] bundleId
      · split
        · exact sound.settles_unmoved _
        · rename_i apart
          split
          · have still : m.survivors.ingest documents []
                (.ok (m.alreadyActive c documents "upsert batch is already active")) =
                  m.survivors := by
              rw [Survivors.ingest, if_neg (by simp [alreadyActive])]
            simp only [still]
            exact sound.settles_unmoved _
          · split
            · exact sound.settles_unmoved _
            · refine settles_of_replaceFacts sound
                (fun d member => ⟨not_not.mp scope d member, plain d member⟩)
                (not_not.mp ordered).2 (fun id => by simp) ?_ _ _ _ _
              intro i inIntents id inside inBatch
              refine apart ⟨i, inIntents, id, inside, List.mem_filter.mpr ⟨inBatch, ?_⟩⟩
              exact decide_eq_true (sound.mem_knownIds_of_intent inIntents inside)

theorem settles_of_purgeSources (sound : Sound c m) {sourceIds : List String}
    (last : m.TakesLast (m.idsOfSources sourceIds)) (failure : Option String) :
    Settles c m (m.purgeSources c failure sourceIds).2
      (∃ receipt, (m.purgeSources c failure sourceIds).1 = .ok receipt)
      (m.survivors.purge (m.purgeSources c failure sourceIds).1) := by
  unfold OpenTextMemory.purgeSources
  split
  · exact sound.settles_unmoved _
  · refine settles_of_purgeFacts sound (fun id asked => ?_) last _ _ _
    rw [idsOfSources, (List.perm_insertionSort _ _).mem_iff] at asked
    obtain ⟨d, member, rfl⟩ := List.mem_map.mp asked
    exact List.mem_map_of_mem (List.mem_filter.mp member).1

theorem settles_of_purgeBatchSourcePrefix (sound : Sound c m) {start : String}
    (last : m.TakesLast (m.idsOfBatches start)) (failure : Option String) :
    Settles c m (m.purgeBatchSourcePrefix c failure start).2
      (∃ receipt, (m.purgeBatchSourcePrefix c failure start).1 = .ok receipt)
      (m.survivors.purge (m.purgeBatchSourcePrefix c failure start).1) := by
  unfold OpenTextMemory.purgeBatchSourcePrefix
  split
  · exact sound.settles_unmoved _
  · refine settles_of_purgeFacts sound (fun id asked => ?_) last _ _ _
    rw [idsOfBatches, (List.perm_insertionSort _ _).mem_iff] at asked
    obtain ⟨item, member, rfl⟩ := List.mem_map.mp asked
    rw [knownIds, sound.reads.factIds]
    exact List.mem_map_of_mem (List.mem_filter.mp member).1

theorem settles_of_call (sound : Sound c m) {call : Call} (safe : m.Safe call) :
    Settles c m (m.call c call).1 (m.call c call).2.Returned
      (m.survivors.after call (m.call c call).2) := by
  cases call with
  | ingestDocuments failure documents intents bundleId =>
    exact settles_of_ingestDocuments sound safe failure intents bundleId
  | upsertDocuments failure documents bundleId =>
    exact settles_of_upsertDocuments sound safe failure bundleId
  | updateDocument failure replacement =>
    exact settles_of_updateDocument sound safe.1 safe.2 failure
  | purgeSources failure sourceIds => exact settles_of_purgeSources sound safe failure
  | purgeBatchSourcePrefix failure start =>
    exact settles_of_purgeBatchSourcePrefix sound safe failure

end

section

variable {c : Crypto} {session : Session}

theorem sound_of_openStore {m : OpenTextMemory} (opened : openStore c session [] = .ok m) :
    Sound c m ∧ m.session = session ∧ m.survivors = ⟨[], []⟩ := by
  simp only [openStore, bind_eq_ok, mapError_eq_ok, pure_eq_ok, Prod.exists]
    at opened
  obtain ⟨durable, live, documents, intents, state, rfl⟩ := opened
  obtain ⟨-, read, -, registry, -⟩ := DurableAuthorizedSidecarMemory.openStore_eq_ok.mp live
  have synced : Host.Synced c ⟨durable, []⟩ := by
    unfold Host.Synced
    rw [registry]
    exact live
  have none : durable.memory.attestedFacts = [] := by
    refine List.eq_nil_iff_forall_not_mem.mpr fun item member => ?_
    obtain ⟨id, attests⟩ := mem_attestedFacts.mp member
    obtain ⟨r, inLedger, -⟩ := synced.attests_iff.mp attests
    have empty : durable.records = [] := (Except.ok.inj read).symm
    rw [empty] at inLedger
    cases inLedger
  have reads : Reads session.scopeId session.sessionId durable.memory.attestedFacts [] [] := by
    rw [none]
    constructor
    all_goals simp [observedFrom]
  rw [stateFromSidecar_of_reads reads, Except.ok.injEq, Prod.mk.injEq] at state
  obtain ⟨rfl, rfl⟩ := state
  exact ⟨⟨synced, registry, reads⟩, rfl, rfl⟩

theorem exists_run (m : OpenTextMemory) (calls : List Call) :
    ∃ last reports, (openTextMachine c).run m calls = some (last, reports) := by
  induction calls generalizing m with
  | nil => exact ⟨m, [], rfl⟩
  | cons call calls ih =>
    obtain ⟨last, reports, ran⟩ := ih (m.call c call).1
    exact ⟨last, _ :: reports, (Machine.run_cons_eq_some _).mpr ⟨_, _, _, rfl, ran, rfl⟩⟩

def Answers (c : Crypto) (m : OpenTextMemory) (call : Call) : Prop :=
  (m.call c call).1.host.store ≠ m.host.store → (m.call c call).2.Returned

theorem run_of_safe {m last : OpenTextMemory} {calls : List Call} {reports : List Report}
    (sound : Sound c m) (safe : (openTextMachine c).Along OpenTextMemory.Safe m calls)
    (ran : (openTextMachine c).run m calls = some (last, reports)) :
    (openTextMachine c).Along (Answers c) m calls ∧ Sound c last ∧ last.session = m.session ∧
      last.survivors = m.survivors.afterAll calls reports := by
  induction calls generalizing m reports with
  | nil =>
    cases ran
    exact ⟨trivial, sound, rfl, rfl⟩
  | cons call calls ih =>
    obtain ⟨next, report, rest, stepped, onward, rfl⟩ := (Machine.run_cons_eq_some _).mp ran
    obtain ⟨here, later⟩ := safe
    have moved : m.call c call = (next, report) := Option.some.inj stepped
    have settles := settles_of_call sound here
    rw [moved] at settles
    obtain ⟨answers, sound', session', survivors'⟩ :=
      ih settles.sound (later next report stepped) onward
    refine ⟨⟨?_, ?_⟩, sound', session'.trans settles.session, ?_⟩
    · intro changed
      rw [moved] at changed ⊢
      exact settles.returned changed
    · intro next' report' stepped'
      rw [stepped] at stepped'
      cases stepped'
      exact answers
    · rw [survivors', settles.survivors]
      rfl

/-- In every run from an empty store whose calls ask no more than a memory can keep, every call that
changes the store returns, and the store reopens as a memory of exactly the surviving documents and
the surviving intents, in the order of their first insertion. -/
theorem reopens_as_survivors (c : Crypto) (session : Session) (m last : OpenTextMemory)
    (opened : openStore c session [] = .ok m) (calls : List Call)
    (reports : List Report) (safe : (openTextMachine c).Along OpenTextMemory.Safe m calls)
    (ran : (openTextMachine c).run m calls = some (last, reports)) :
    (openTextMachine c).Along (Answers c) m calls ∧
    ∃ reopened, openStore c session last.host.store = .ok reopened ∧
      reopened.survivors = (Survivors.mk [] []).afterAll calls reports ∧
      last.survivors = (Survivors.mk [] []).afterAll calls reports := by
  obtain ⟨sound, rfl, nothing⟩ := sound_of_openStore opened
  obtain ⟨answers, sound', session', survivors⟩ := run_of_safe sound safe ran
  rw [nothing] at survivors
  exact ⟨answers, last, session' ▸ sound'.reopens, survivors, survivors⟩

end

end ProofRay.OpenText
