/- What the memory of a ledger attests: the facts of its records, and after an ingest, a replacement
   or a purge what came in beside what stays. -/

import ProofRay.Sidecar.Redaction

namespace ProofRay.Sidecar

open Engine (Crypto)
open Lib (Dict)
open Lib.Guard
open AuthorizedSidecarMemory (attestedFacts attests_record authorityOf eq_of_make)

section

variable {c : Crypto} {g : Registry} {rs kept : List SidecarRecord}
  {m m' : AuthorizedSidecarMemory} {selected : List Nat}

variable {item : AttestedSidecarFact} {r : SidecarRecord}

theorem Replayed.taken_of_mem (replayed : Replayed c g rs m) (member : r ∈ rs) :
    ∃ m authority source memory, Takes c g m r authority source memory := by
  induction replayed with
  | start made => cases member
  | next before taken ih =>
    rcases List.mem_append.mp member with earlier | last
    · exact ih earlier
    · rw [List.mem_singleton.mp last]
      exact ⟨_, _, _, _, taken⟩

theorem Replayed.attests_iff (replayed : Replayed c g rs m) {id : Nat} :
    m.Attests id item ↔ ∃ r ∈ rs, item ∈ r.facts ∧ item.fact.factId = id := by
  induction replayed with
  | start made =>
    obtain rfl := eq_of_make made
    simp [AuthorizedSidecarMemory.Attests]
  | @next rs m r authority source memory before taken ih =>
    have brings : (item ∈ r.compilation.facts ∧ item.fact.factId = id) ↔
        (item ∈ r.facts ∧ item.fact.factId = id) := Iff.rfl
    rw [attests_record taken.fit.fitting, ih, brings]
    simp only [List.mem_append, List.mem_singleton]
    constructor
    · rintro (here | ⟨q, member, there⟩)
      · exact ⟨r, .inr rfl, here⟩
      · exact ⟨q, .inl member, there⟩
    · rintro ⟨q, member | rfl, there⟩
      · exact .inr ⟨q, member, there⟩
      · exact .inl there

theorem attestations_of_finalizePublication (final : m.finalizePublication = .ok m') :
    m'.attestations = m.attestations ∧ m'.sources = m.sources ∧ m'.authorities = m.authorities ∧
      m'.memory.facts = m.memory.facts := by
  unfold AuthorizedSidecarMemory.finalizePublication at final
  split at final
  · simp only [bind_eq_ok, pure_eq_ok] at final
    obtain ⟨memory, published, rfl⟩ := final
    refine ⟨rfl, rfl, rfl, ?_⟩
    unfold StandaloneCausalMemory.finalizePublication at published
    split at published
    · split at published
      · cases published
        rfl
      · simp only [bind_eq_ok, pure_eq_ok] at published
        obtain ⟨executor, -, rfl⟩ := published
        rfl
    · cases published
      rfl
  · cases final
    exact ⟨rfl, rfl, rfl, rfl⟩

theorem mem_attestedFacts : item ∈ m.attestedFacts ↔ ∃ id, m.Attests id item := by
  simp only [attestedFacts, List.mem_map, Prod.exists, Dict.mem_sortedBy,
    exists_eq_right]
  rfl

variable {previous : String} {sequence : Nat}

theorem mem_rechain (member : r ∈ rechain c sequence previous rs) :
    ∃ r₀ ∈ rs, r.sourceId = r₀.sourceId ∧ r.content = r₀.content ∧ r.facts = r₀.facts := by
  induction rs generalizing sequence previous with
  | nil => cases member
  | cons q rs ih =>
    rcases List.mem_cons.mp member with rfl | later
    · exact ⟨q, List.mem_cons_self, rfl, rfl, rfl⟩
    · obtain ⟨r₀, member', rest⟩ := ih later
      exact ⟨r₀, List.mem_cons_of_mem q member', rest⟩

theorem facts_of_rechain {r₀ : SidecarRecord} (member : r₀ ∈ rs) :
    ∃ r ∈ rechain c sequence previous rs, r.facts = r₀.facts := by
  induction rs generalizing sequence previous with
  | nil => cases member
  | cons q rs ih =>
    rcases List.mem_cons.mp member with rfl | later
    · exact ⟨_, List.mem_cons_self, rfl⟩
    · obtain ⟨r, member', same⟩ := ih later
      exact ⟨r, List.mem_cons_of_mem _ member', same⟩

/-- The facts of what stays of a ledger are those that were not selected, sealed again where their
record was redacted. -/
theorem facts_of_recordsWithoutFactIds (replayed : Replayed c g rs m)
    (filtered : recordsWithoutFactIds c g selected rs = .ok kept) :
    (∀ r' ∈ kept, ∀ item' ∈ r'.facts, ∃ r ∈ rs, ∃ item ∈ r.facts,
      item.fact.factId ∉ selected ∧ item.Like item') ∧
    ∀ r ∈ rs, ∀ item ∈ r.facts, item.fact.factId ∉ selected →
      ∃ r' ∈ kept, ∃ item' ∈ r'.facts, item.Like item' := by
  simp only [recordsWithoutFactIds, bind_eq_ok, pure_eq_ok] at filtered
  obtain ⟨without, mapped, rfl⟩ := filtered
  constructor
  · intro r' member item' inRecord
    obtain ⟨r₀, inKept, -, -, facts⟩ := mem_rechain member
    obtain ⟨stays, member', rfl⟩ := List.mem_filterMap.mp inKept
    obtain ⟨r, inLedger, made⟩ := mem_of_mapM_ok mapped _ member'
    obtain ⟨m, authority, source, memory, taken⟩ := replayed.taken_of_mem inLedger
    rcases without_of_taken (c := c) taken with ⟨-, nothing⟩ | ⟨-, r₁, source', made', remainder⟩
    · rw [nothing] at made
      cases made
    · rw [made'] at made
      obtain rfl := Option.some.inj (Except.ok.inj made)
      obtain ⟨item, inRecord', unselected, like⟩ := remainder.factsFrom item' (facts ▸ inRecord)
      exact ⟨r, inLedger, item, inRecord', unselected, like⟩
  · intro r inLedger item inRecord unselected
    obtain ⟨stays, member, made⟩ := exists_of_mapM_ok mapped r inLedger
    obtain ⟨m, authority, source, memory, taken⟩ := replayed.taken_of_mem inLedger
    rcases without_of_taken (c := c) taken with ⟨dropped, -⟩ | ⟨-, r₁, source', made', remainder⟩
    · have inRest : item ∈ r.factsWithout selected :=
        SidecarRecord.mem_factsWithout.mpr ⟨inRecord, unselected⟩
      rw [(not_not.mp dropped).1] at inRest
      cases inRest
    · rw [made'] at made
      obtain rfl := Except.ok.inj made
      obtain ⟨item', inRecord', like⟩ := remainder.factsKept item inRecord unselected
      have rechained : ∃ r' ∈ rechain c 1 genesis (without.filterMap id), r'.facts = r₁.facts :=
        facts_of_rechain (List.mem_filterMap.mpr ⟨_, member, rfl⟩)
      obtain ⟨r', inKept, same⟩ := rechained
      exact ⟨r', inKept, item', same ▸ inRecord', like⟩

theorem Replayed.authorities (replayed : Replayed c g rs m) :
    (m.authorities.map fun a => a.sha256 c).Nodup := by
  induction replayed with
  | start made =>
    simp only [AuthorizedSidecarMemory.make, bind_eq_ok, require_eq_ok, pure_eq_ok] at made
    obtain ⟨-, -, -, -, -, -, -, -, -, distinct, -, -, rfl⟩ := made
    exact distinct
  | next before taken ih => exact ih

theorem Replayed.verifyAttestation (replayed : Replayed c g (rs ++ [r]) m)
    (member : item ∈ r.facts) : m.verifyAttestation c item.fact.factId = true := by
  generalize ledger : rs ++ [r] = all at replayed
  cases replayed with
  | start made => simp at ledger
  | @next rs' m r' authority source memory before taken =>
    obtain ⟨-, same⟩ := List.append_inj' ledger rfl
    obtain rfl : r = r' := by simpa using same
    have attests : (m.record source r.compilation memory).Attests item.fact.factId item :=
      (attests_record taken.fit.fitting).mpr (.inl ⟨member, rfl⟩)
    have verified := taken.fit.verified item member
    have bound : item.authoritySha256 = authority.sha256 c := by
      simp only [AttestedSidecarFact.verify, Bool.and_eq_true, decide_eq_true_eq] at verified
      exact verified.1
    have registered : authority ∈ m.authorities := List.mem_of_find?_eq_some taken.admitted.trusted
    have known : (m.record source r.compilation memory).authorityOf c item.authoritySha256 =
        some authority := by
      show m.authorities.find? (fun a => a.sha256 c = item.authoritySha256) = some authority
      cases found : m.authorities.find? fun a => a.sha256 c = item.authoritySha256 with
      | none =>
        have differs := List.find?_eq_none.mp found authority registered
        exact absurd (decide_eq_true bound.symm) differs
      | some a =>
        have named := List.find?_some found
        simp only [decide_eq_true_eq] at named
        have same : a.sha256 c = authority.sha256 c := named.trans bound
        rw [List.inj_on_of_nodup_map before.authorities (List.mem_of_find?_eq_some found)
          registered same]
    have held : (m.record source r.compilation memory).sources.get item.fact.sourceId =
        some source := by
      rw [(taken.fit.fromSource item member).2.1]
      exact Dict.get_set_self _ _ _
    rw [AuthorizedSidecarMemory.verifyAttestation,
      show (m.record source r.compilation memory).attestations.get item.fact.factId = some item
        from attests]
    simp only [known, held]
    exact verified

end

section

variable {c : Crypto} {h : Host}

theorem Host.Synced.replayed (synced : h.Synced c) : ∃ m,
    Replayed c h.durable.registry h.durable.records m ∧
      m.finalizePublication = .ok h.durable.memory := by
  obtain ⟨-, -, recovered, -⟩ := DurableAuthorizedSidecarMemory.openStore_eq_ok.mp synced
  exact recover_iff.mp recovered

variable {id : Nat}

theorem Host.Synced.attests_iff (synced : h.Synced c) {item : AttestedSidecarFact} :
    h.durable.memory.Attests id item ↔
      ∃ r ∈ h.durable.records, item ∈ r.facts ∧ item.fact.factId = id := by
  obtain ⟨m, replayed, final⟩ := synced.replayed
  rw [← replayed.attests_iff, AuthorizedSidecarMemory.Attests, AuthorizedSidecarMemory.Attests,
    (attestations_of_finalizePublication final).1]

theorem Host.Synced.factId (synced : h.Synced c) {item : AttestedSidecarFact}
    (attests : h.durable.memory.Attests id item) : item.fact.factId = id := by
  obtain ⟨r, -, -, same⟩ := synced.attests_iff.mp attests
  exact same

theorem Host.Synced.facts (synced : h.Synced c) (id : Nat) (f : TypedCausalFact) :
    h.durable.memory.memory.facts.get id = some f ↔
      ∃ item, h.durable.memory.Attests id item ∧ item.fact = f := by
  obtain ⟨m, replayed, final⟩ := synced.replayed
  obtain ⟨attestations, -, -, facts⟩ := attestations_of_finalizePublication final
  rw [facts, replayed.coherent.facts]
  simp only [AuthorizedSidecarMemory.Attests, attestations]

theorem Host.Synced.canonical (synced : h.Synced c) :
    Canonical (h.durable.memory.attestedFacts.map fun item => item.fact.factId) := by
  have names : (h.durable.memory.attestedFacts.map fun item => item.fact.factId) =
      (h.durable.memory.attestations.sortedBy id).map Prod.fst := by
    rw [attestedFacts, List.map_map]
    exact List.map_congr_left fun e member => synced.factId (Dict.mem_sortedBy.mp member)
  rw [names]
  exact h.durable.memory.attestations.keys_sortedBy

end

/-- What a memory attests once FactIds are gone: everything else, sealed again where its record was
redacted. -/
structure Retains (selected : List Nat) (m m' : AuthorizedSidecarMemory) : Prop where
  gone : ∀ id item', m'.Attests id item' →
    id ∉ selected ∧ ∃ item, m.Attests id item ∧ item.Like item'
  kept : ∀ id item, m.Attests id item → id ∉ selected →
    ∃ item', m'.Attests id item' ∧ item.Like item'

section

variable {c : Crypto} {h : Host} {next : DurableAuthorizedSidecarMemory} {δ : Type}
  {adapter : SidecarIngestAdapter δ} {batch : CausalAdapterBatch δ}
  {authority : SidecarAuthority} {receipt : SidecarIngestReceipt}

private theorem verified_last {rs : List SidecarRecord} {r : SidecarRecord}
    (synced : Host.Synced c ⟨next, next.recordBytes⟩) (ledger : next.records = rs ++ [r]) :
    ∀ item ∈ r.facts, next.memory.verifyAttestation c item.fact.factId = true := by
  intro item member
  obtain ⟨m, replayed, final⟩ := synced.replayed
  obtain ⟨attestations, sources, authorities, -⟩ := attestations_of_finalizePublication final
  have verified := (ledger ▸ replayed).verifyAttestation member
  simp only [AuthorizedSidecarMemory.verifyAttestation, authorityOf]
    at verified ⊢
  rw [attestations, sources, authorities]
  exact verified

theorem synced_of_stageIngest (synced : h.Synced c)
    (staged : h.durable.stageIngest c adapter batch = .ok (authority, receipt, next)) :
    Host.Synced c ⟨next, next.recordBytes⟩ ∧ next.registry = h.durable.registry := by
  obtain ⟨registry, -, opens⟩ :=
    DurableAuthorizedSidecarMemory.openStore_of_stageIngest synced staged
  exact ⟨synced_next registry opens, registry⟩

theorem attests_of_stageIngest (synced : h.Synced c)
    (staged : h.durable.stageIngest c adapter batch = .ok (authority, receipt, next)) :
    ∃ compilation, adapter.compileSidecar batch = .ok compilation ∧
      (∀ id item, next.memory.Attests id item ↔
        (item ∈ compilation.facts ∧ item.fact.factId = id) ∨ h.durable.memory.Attests id item) ∧
      (∀ item ∈ compilation.facts,
        next.memory.verifyAttestation c item.fact.factId = true) ∧
      (compilation.completenessClaims = [] → ∃ item ∈ compilation.facts,
        ∀ known, ¬ h.durable.memory.Attests item.fact.factId known) := by
  obtain ⟨synced', -⟩ := synced_of_stageIngest synced staged
  obtain ⟨-, registered, compilation, memory, compiled, ingested, applied, rfl⟩ :=
    DurableAuthorizedSidecarMemory.stageIngest_eq_ok.mp staged
  refine ⟨compilation, compiled, fun id item => ?_, verified_last synced' rfl, fun none => ?_⟩
  · rw [synced'.attests_iff, synced.attests_iff]
    simp only [DurableAuthorizedSidecarMemory.moved, List.mem_append, List.mem_singleton]
    constructor
    · rintro ⟨r, member | rfl, here⟩
      · exact .inr ⟨r, member, here⟩
      · exact .inl here
    · rintro (here | ⟨r, member, here⟩)
      · exact ⟨_, .inr rfl, here⟩
      · exact ⟨r, .inl member, here⟩
  · rw [Registry.ingestRecord_newRecord _ _ registered] at ingested
    obtain ⟨authority', source, compilation', memory', admitted, fit, published, -⟩ :=
      AuthorizedSidecarMemory.of_ingest ingested (.inl applied)
    obtain rfl : compilation = compilation' := Except.ok.inj admitted.compiled
    cases published with
    | claims no_fact _ _ => exact absurd ⟨no_fact, none⟩ fit.nonempty
    | facts some_fact entered outcome taken =>
      obtain ⟨-, origin, -, -, rest⟩ := StandaloneCausalMemory.of_ingest entered (outcome ▸ taken)
      rcases rest with ⟨-, idempotent, -⟩ | ⟨some_novel, -⟩
      · rw [outcome, applied] at idempotent
        cases idempotent
      · obtain ⟨f, novel⟩ := List.exists_mem_of_ne_nil _ some_novel
        obtain ⟨member, fresh⟩ := StandaloneCausalMemory.mem_novel.mp novel
        obtain ⟨item, inBatch, rfl⟩ := List.mem_map.mp member
        refine ⟨item, inBatch, fun known attests => ?_⟩
        have held := (synced.facts item.fact.factId known.fact).mpr ⟨known, attests, rfl⟩
        have absent : h.durable.memory.memory.facts.get item.fact.factId = .none := fresh
        rw [held] at absent
        cases absent

/-- A batch that is answered `IDEMPOTENT` is attested as it was compiled. -/
theorem attests_of_idempotent (synced : h.Synced c)
    (staged : h.durable.stageIngest c adapter batch = .error receipt)
    (idempotent : receipt.state = .idempotent) :
    ∃ compilation, adapter.compileSidecar batch = .ok compilation ∧
      ∀ item ∈ compilation.facts, h.durable.memory.Attests item.fact.factId item := by
  simp only [DurableAuthorizedSidecarMemory.stageIngest, bind_eq_error, orThrow_eq_error,
    require_eq_error, mapError_eq_error, pure_ne_error, Prod.exists, exists_const, and_false,
    or_false, require_eq_ok, orThrow_eq_ok, mapError_eq_ok] at staged
  rcases staged with ⟨-, rfl⟩ | ⟨supplied, declared, ⟨-, rfl⟩ | ⟨registered, ⟨e, -, rfl⟩ |
    ⟨compilation, compiled, ⟨e, -, rfl⟩ | ⟨persisted, reloaded, ⟨e, -, rfl⟩ |
    ⟨receipt', memory, ingested, -, rfl⟩⟩⟩⟩⟩
  iterate 5 cases idempotent
  refine ⟨compilation, compiled, ?_⟩
  rw [SidecarRecord.reload_eq_ok c rfl, Except.ok.injEq] at reloaded
  subst reloaded
  rw [Registry.ingestRecord_newRecord _ _ registered] at ingested
  obtain ⟨authority', source, compilation', memory', admitted, fit, published, -⟩ :=
    AuthorizedSidecarMemory.of_ingest ingested (.inr idempotent)
  obtain rfl : compilation = compilation' := Except.ok.inj admitted.compiled
  intro item member
  cases published with
  | claims no_fact _ _ =>
    rw [no_fact] at member
    cases member
  | facts some_fact entered outcome taken =>
    obtain ⟨-, origin, -, -, rest⟩ := StandaloneCausalMemory.of_ingest entered (outcome ▸ taken)
    rcases rest with ⟨nothing, -⟩ | ⟨-, -, applied, -⟩
    · cases found : h.durable.memory.memory.facts.get item.fact.factId with
      | none =>
        have novel : item.fact ∈ h.durable.memory.fork.memory.novel
            (compilation.facts.map fun item => item.fact) :=
          StandaloneCausalMemory.mem_novel.mpr ⟨List.mem_map.mpr ⟨item, member, rfl⟩, found⟩
        rw [nothing] at novel
        cases novel
      | some f =>
        obtain ⟨known, attests, -⟩ := (synced.facts _ _).mp found
        have same : known = item := fit.sameAttestation item member known attests
        exact same ▸ attests
    · rw [outcome, idempotent] at applied
      cases applied

variable {purged : CausalDeleteReceipt} {factIds : List Nat} {remove : List Nat} {sourceId : String}

theorem synced_of_stageReplace (synced : h.Synced c)
    (staged : h.durable.stageReplace c adapter batch remove = .ok (authority, receipt, next)) :
    Host.Synced c ⟨next, next.recordBytes⟩ ∧ next.registry = h.durable.registry := by
  obtain ⟨registry, -, opens⟩ :=
    DurableAuthorizedSidecarMemory.openStore_of_stageReplace synced staged
  exact ⟨synced_next registry opens, registry⟩

theorem attests_of_stageReplace (synced : h.Synced c)
    (staged : h.durable.stageReplace c adapter batch remove = .ok (authority, receipt, next)) :
    ∃ compilation, adapter.compileSidecar batch = .ok compilation ∧
      (∀ id item', next.memory.Attests id item' →
        (item' ∈ compilation.facts ∧ item'.fact.factId = id) ∨
        (id ∉ remove ∧ ∃ item, h.durable.memory.Attests id item ∧ item.Like item')) ∧
      (∀ item ∈ compilation.facts, next.memory.Attests item.fact.factId item) ∧
      (∀ id item, h.durable.memory.Attests id item → id ∉ remove →
        ∃ item', next.memory.Attests id item' ∧ item.Like item') ∧
      (∀ item ∈ compilation.facts,
        next.memory.verifyAttestation c item.fact.factId = true) := by
  obtain ⟨synced', -⟩ := synced_of_stageReplace synced staged
  obtain ⟨compilation, retained, memory, last, compiled, filtered, -, -, rfl⟩ :=
    DurableAuthorizedSidecarMemory.of_stageReplace staged
  obtain ⟨m, replayed, final⟩ := synced.replayed
  obtain ⟨from_ledger, onward⟩ := facts_of_recordsWithoutFactIds replayed filtered
  refine ⟨compilation, compiled, fun id item' attests => ?_, fun item member => ?_,
    fun id item attests stays => ?_, verified_last synced' rfl⟩
  · obtain ⟨r', member, inRecord, rfl⟩ := synced'.attests_iff.mp attests
    rcases List.mem_append.mp member with kept | new
    · obtain ⟨r, inLedger, item, here, unselected, like⟩ := from_ledger r' kept item' inRecord
      exact .inr ⟨like.factId ▸ unselected, item,
        synced.attests_iff.mpr ⟨r, inLedger, here, like.factId.symm⟩, like⟩
    · rw [List.mem_singleton.mp new] at inRecord
      exact .inl ⟨inRecord, rfl⟩
  · exact synced'.attests_iff.mpr
      ⟨_, List.mem_append_right _ List.mem_cons_self, member, rfl⟩
  · obtain ⟨r, inLedger, here, rfl⟩ := synced.attests_iff.mp attests
    obtain ⟨r', kept, item', inRecord, like⟩ := onward r inLedger item here stays
    exact ⟨item', synced'.attests_iff.mpr
      ⟨r', List.mem_append_left _ kept, inRecord, like.factId⟩, like⟩

theorem synced_of_stagePurge (synced : h.Synced c)
    (staged : h.durable.stagePurge c factIds sourceId = .ok (purged, next)) :
    Host.Synced c ⟨next, next.recordBytes⟩ ∧ next.registry = h.durable.registry := by
  obtain ⟨registry, -, opens⟩ :=
    DurableAuthorizedSidecarMemory.openStore_of_stagePurge synced staged
  exact ⟨synced_next registry opens, registry⟩

theorem attests_of_stagePurge (synced : h.Synced c)
    (staged : h.durable.stagePurge c factIds sourceId = .ok (purged, next)) :
    Retains (purgeSelection h.durable.memory.attestedFacts factIds) h.durable.memory
        next.memory ∧
      ∀ id, id ∈ purged.removedFactIds ↔
        id ∈ purgeSelection h.durable.memory.attestedFacts factIds := by
  obtain ⟨synced', -⟩ := synced_of_stagePurge synced staged
  obtain ⟨-, -, candidate, memory, last, filtered, -, rfl, rfl⟩ :=
    DurableAuthorizedSidecarMemory.stagePurge_eq_ok.mp staged
  obtain ⟨m, replayed, final⟩ := synced.replayed
  obtain ⟨from_ledger, onward⟩ := facts_of_recordsWithoutFactIds replayed filtered
  refine ⟨⟨fun id item' attests => ?_, fun id item attests stays => ?_⟩, fun id => ?_⟩
  · obtain ⟨r', member, inRecord, rfl⟩ := synced'.attests_iff.mp attests
    obtain ⟨r, inLedger, item, here, unselected, like⟩ := from_ledger r' member item' inRecord
    exact ⟨like.factId ▸ unselected, item,
      synced.attests_iff.mpr ⟨r, inLedger, here, like.factId.symm⟩, like⟩
  · obtain ⟨r, inLedger, here, rfl⟩ := synced.attests_iff.mp attests
    obtain ⟨r', kept, item', inRecord, like⟩ := onward r inLedger item here stays
    exact ⟨item', synced'.attests_iff.mpr ⟨r', kept, inRecord, like.factId⟩, like⟩
  · exact (List.perm_insertionSort _ _).mem_iff.trans List.mem_dedup

end

end ProofRay.Sidecar
