/- The live index of a durable sidecar is its recovery, after any calls and any failures of its
   store. -/

import ProofRay.Engine.Primitives
import ProofRay.Lib.Machine
import ProofRay.Sidecar.Admission

namespace ProofRay.Sidecar

open Engine (Bytes Crypto PyError stdCrypto)
open Lib (Dict Machine)
open Lib.Guard

def Chained (c : Crypto) : Nat → String → List SidecarRecord → Prop
  | _, _, [] => True
  | sequence, previous, r :: rs =>
    r.sequence = sequence ∧ r.previousSha256 = previous ∧ r.recordSha256 = r.hash c ∧
      Chained c (sequence + 1) r.recordSha256 rs

section

variable {c : Crypto} {sequence : Nat} {previous : String} {rs : List SidecarRecord}

theorem chained_of_readRecords {lines : List Bytes}
    (h : readRecords c sequence previous lines = .ok rs) : Chained c sequence previous rs := by
  induction lines generalizing sequence previous rs with
  | nil =>
    cases h
    trivial
  | cons raw lines ih =>
    simp only [readRecords, bind_eq_ok, pure_eq_ok] at h
    obtain ⟨r, read, rs', rest, rfl⟩ := h
    obtain ⟨atSequence, atPrevious, signature⟩ := SidecarRecord.of_read c read
    exact ⟨atSequence, atPrevious, signature, ih rest⟩

theorem readRecords_bytes (chained : Chained c sequence previous rs) :
    readRecords c sequence previous (rs.map SidecarRecord.bytes) = .ok rs := by
  induction rs generalizing sequence previous with
  | nil => rfl
  | cons r rs ih =>
    obtain ⟨rfl, rfl, signature, later⟩ := chained
    rw [List.map_cons, readRecords, SidecarRecord.read_bytes c signature, ok_bind, ih later]
    rfl

theorem chained_append {r : SidecarRecord} (chained : Chained c sequence previous rs)
    (atSequence : r.sequence = sequence + rs.length)
    (atPrevious : r.previousSha256 = (rs.getLast?.map fun r => r.recordSha256).getD previous)
    (signature : r.recordSha256 = r.hash c) : Chained c sequence previous (rs ++ [r]) := by
  induction rs generalizing sequence previous with
  | nil => exact ⟨atSequence, atPrevious, signature, trivial⟩
  | cons q rs ih =>
    obtain ⟨here, before, own, later⟩ := chained
    refine ⟨here, before, own, ih later ?_ ?_⟩
    · rw [List.length_cons] at atSequence
      omega
    · rw [atPrevious, List.getLast?_cons]
      cases rs.getLast? <;> rfl

theorem chained_rechain (c : Crypto) (sequence : Nat) (previous : String)
    (rs : List SidecarRecord) : Chained c sequence previous (rechain c sequence previous rs) := by
  induction rs generalizing sequence previous with
  | nil => trivial
  | cons r rs ih => exact ⟨rfl, rfl, rfl, ih _ _⟩

theorem chained_recordsWithoutFactIds {g : Registry} {selected : List Nat}
    {kept : List SidecarRecord} (h : recordsWithoutFactIds c g selected rs = .ok kept) :
    Chained c 1 genesis kept := by
  simp only [recordsWithoutFactIds, bind_eq_ok, pure_eq_ok] at h
  obtain ⟨-, -, rfl⟩ := h
  exact chained_rechain c 1 genesis _

theorem chained_newRecord {δ : Type} (d : DurableAuthorizedSidecarMemory)
    (authority : SidecarAuthority) (batch : CausalAdapterBatch δ)
    (compilation : SidecarCompilation) (chained : Chained c 1 genesis rs) :
    Chained c 1 genesis (rs ++ [d.newRecord c rs authority batch compilation]) :=
  chained_append chained (Nat.add_comm _ _) rfl rfl

end

namespace StandaloneCausalMemory

def published (facts : Dict Nat TypedCausalFact) (scope : String) :
    Except PyError (Option TypedCausalExecutor) :=
  if facts.items = [] then .ok none
  else (TypedCausalExecutor.make (sortedFacts facts) scope).map some

variable {m m' : StandaloneCausalMemory} {outcome : Refusal}

theorem finalizePublication_eq_ok (deferred : m.deferPublication = true) :
    m.finalizePublication = .ok m' ↔
      ∃ e, published m.facts m.scope = .ok e ∧
        m' = { m with executor := e, deferPublication := false } := by
  unfold finalizePublication published
  rw [if_pos deferred]
  split
  · simp [eq_comm]
  · cases made : TypedCausalExecutor.make (sortedFacts m.facts) m.scope with
    | error e => simp [Except.map]
    | ok x => simp [Except.map, eq_comm]

private theorem update_ne_nil {κ α : Type} [DecidableEq κ] (d : Dict κ α) {l : List (κ × α)}
    (some_item : l ≠ []) : (d.update l).items ≠ [] := by
  obtain ⟨e, rest, rfl⟩ := List.exists_cons_of_ne_nil some_item
  intro empty
  have gone : ∀ k, (d.update (e :: rest)).get k = none := by
    intro k
    rw [Dict.get_eq_none_iff, Dict.keys, empty]
    exact List.not_mem_nil
  have kept : ∀ (rest : List (κ × α)) (d : Dict κ α), (∃ a, d.get e.1 = some a) →
      ∃ a, (d.update rest).get e.1 = some a := by
    intro rest
    induction rest with
    | nil => exact fun d found => found
    | cons f rest ih =>
      intro d found
      apply ih
      rw [Dict.get_set]
      split
      · exact ⟨_, rfl⟩
      · exact found
  obtain ⟨a, found⟩ := kept rest (d.set e.1 e.2) ⟨e.2, Dict.get_set_self d e.1 e.2⟩
  rw [Dict.update_cons] at gone
  rw [gone] at found
  cases found

theorem ingest_unpublished {δ : Type} {c : Crypto} {m₀ m m' : StandaloneCausalMemory}
    {batch : CausalAdapterBatch δ} {proposed : List TypedCausalFact}
    (deferred : m₀.deferPublication = true) (final : m₀.finalizePublication = .ok m)
    (h : m.ingest c batch proposed = .ok (outcome, m')) :
    ∃ m₀', m₀.ingest c batch proposed = .ok (outcome, m₀') ∧ m₀'.deferPublication = true ∧
      m₀'.finalizePublication = .ok m' := by
  obtain ⟨e, index, rfl⟩ := (finalizePublication_eq_ok deferred).mp final
  have screened : screen c { m₀ with executor := e, deferPublication := false } batch proposed =
      m₀.screen c batch proposed := rfl
  unfold ingest at h ⊢
  rw [screened] at h
  cases decision : m₀.screen c batch proposed with
  | error refusal =>
    rw [decision] at h
    cases h
    exact ⟨m₀, rfl, deferred, final⟩
  | ok source =>
    rw [decision] at h
    simp only [commit, bind_eq_ok, pure_eq_ok, Prod.mk.injEq] at h
    obtain ⟨-, ⟨x, made, rfl⟩, rfl, rfl⟩ := h
    have novel : m₀.novel proposed ≠ [] := by
      simp only [screen, bind_eq_ok, require_eq_ok] at decision
      obtain ⟨-, -, source', -, rest⟩ := decision
      cases refused : m₀.refuse c source' proposed with
      | some refusal =>
        rw [refused] at rest
        cases rest
      | none =>
        simp only [refused, bind_eq_ok, require_eq_ok] at rest
        exact rest.choose_spec.1
    have filled := update_ne_nil m₀.facts (l := (m₀.novel proposed).map fun f => (f.factId, f))
      (by simpa using novel)
    refine ⟨{ m₀ with
      facts := m₀.facts.update ((m₀.novel proposed).map fun f => (f.factId, f))
      sources := m₀.sources.set source.sourceId source
      executor := none }, ?_, deferred, ?_⟩
    · simp only [commit, reindex, if_pos deferred, ok_bind]
      rfl
    · refine (finalizePublication_eq_ok ?_).mpr ⟨x, ?_, rfl⟩
      · exact deferred
      · simp only [published, if_neg filled]
        exact made

theorem deferPublication_of_ingest {δ : Type} {c : Crypto} {batch : CausalAdapterBatch δ}
    {proposed : List TypedCausalFact} (h : m.ingest c batch proposed = .ok (outcome, m')) :
    m'.deferPublication = m.deferPublication := by
  unfold ingest at h
  cases decision : m.screen c batch proposed with
  | error refusal =>
    rw [decision] at h
    cases h
    rfl
  | ok source =>
    rw [decision] at h
    simp only [commit, bind_eq_ok, pure_eq_ok, Prod.mk.injEq] at h
    obtain ⟨-, ⟨-, -, rfl⟩, -, rfl⟩ := h
    rfl

end StandaloneCausalMemory

namespace AuthorizedSidecarMemory

def Unpublished (m : AuthorizedSidecarMemory) : Prop :=
  m.deferPublication = true ∧ m.memory.deferPublication = true

variable {m m' : AuthorizedSidecarMemory}

theorem finalizePublication_eq_ok (deferred : m.deferPublication = true) :
    m.finalizePublication = .ok m' ↔
      ∃ memory, m.memory.finalizePublication = .ok memory ∧
        m' = { m with memory, deferPublication := false } := by
  unfold finalizePublication
  rw [if_pos deferred]
  simp only [bind_eq_ok, pure_eq_ok]
  exact exists_congr fun memory => and_congr_right fun _ => eq_comm

theorem unpublished_of_ingest {δ : Type} {c : Crypto} {adapter : SidecarIngestAdapter δ}
    {batch : CausalAdapterBatch δ} {receipt : SidecarIngestReceipt} (unpublished : m.Unpublished)
    (h : m.ingest c adapter batch = .ok (receipt, m')) : m'.Unpublished := by
  unfold ingest at h
  split at h
  · cases h
    exact unpublished
  · rename_i authority source compilation _
    simp only at h
    split at h
    · cases h
      exact unpublished
    · simp only [bind_eq_ok, pure_eq_ok, Prod.mk.injEq, Prod.exists] at h
      obtain ⟨outcome, after, done, -, rfl⟩ := h
      unfold publish at done
      split at done
      · simp only [bind_eq_ok, Prod.exists] at done
        obtain ⟨core, memory, ingested, rest⟩ := done
        have still := StandaloneCausalMemory.deferPublication_of_ingest ingested
        split at rest
        · cases rest
          exact ⟨unpublished.1, still.trans unpublished.2⟩
        · cases rest
          exact unpublished
      · split at done
        · cases done
          exact unpublished
        · cases done
          exact unpublished

theorem ingest_unpublished {δ : Type} {c : Crypto} {m₀ m m' : AuthorizedSidecarMemory}
    {adapter : SidecarIngestAdapter δ} {batch : CausalAdapterBatch δ}
    {receipt : SidecarIngestReceipt} (unpublished : m₀.Unpublished)
    (final : m₀.finalizePublication = .ok m) (h : m.ingest c adapter batch = .ok (receipt, m')) :
    ∃ m₀', m₀.ingest c adapter batch = .ok (receipt, m₀') ∧ m₀'.Unpublished ∧
      m₀'.finalizePublication = .ok m' := by
  obtain ⟨memory, published, rfl⟩ := (finalizePublication_eq_ok unpublished.1).mp final
  have admitted : screen c { m₀ with memory, deferPublication := false } adapter batch =
      m₀.screen c adapter batch := rfl
  unfold ingest at h ⊢
  rw [admitted] at h
  cases decision : m₀.screen c adapter batch with
  | error refused =>
    rw [decision] at h
    cases h
    exact ⟨m₀, rfl, unpublished, final⟩
  | ok admission =>
    obtain ⟨authority, source, compilation⟩ := admission
    rw [decision] at h
    have screened : refuse c { m₀ with memory, deferPublication := false } authority source
        compilation = m₀.refuse c authority source compilation := rfl
    simp only [screened] at h
    simp only
    cases refusal : m₀.refuse c authority source compilation with
    | some refused =>
      simp only [refusal] at h
      cases h
      exact ⟨m₀, rfl, unpublished, final⟩
    | none =>
      simp only [refusal, bind_eq_ok, pure_eq_ok, Prod.mk.injEq, Prod.exists] at h
      obtain ⟨outcome, after, done, rfl, rfl⟩ := h
      suffices ∃ m₀', m₀.publish c source compilation batch = .ok (outcome, m₀') ∧
          m₀'.Unpublished ∧ m₀'.finalizePublication = .ok after by
        obtain ⟨m₀', published', still, final'⟩ := this
        exact ⟨m₀', by simp [published'], still, final'⟩
      unfold publish at done ⊢
      by_cases facts : compilation.facts ≠ []
      · simp only [if_pos facts, bind_eq_ok, Prod.exists] at done ⊢
        obtain ⟨core, memory', ingested, rest⟩ := done
        obtain ⟨memory₀', ingested₀, deferred, published'⟩ :=
          StandaloneCausalMemory.ingest_unpublished unpublished.2 published ingested
        by_cases good : core.state = .applied ∨ core.state = .idempotent
        · simp only [if_pos good, pure_eq_ok, Prod.mk.injEq] at rest
          obtain ⟨rfl, rfl⟩ := rest
          refine ⟨m₀.record source compilation memory₀', ⟨core, memory₀', ingested₀, ?_⟩,
            ⟨unpublished.1, deferred⟩, ?_⟩
          · rw [if_pos good]
            rfl
          · refine (finalizePublication_eq_ok ?_).mpr ⟨memory', published', rfl⟩
            exact unpublished.1
        · simp only [if_neg good, pure_eq_ok, Prod.mk.injEq] at rest
          obtain ⟨rfl, rfl⟩ := rest
          refine ⟨m₀, ⟨core, memory₀', ingested₀, ?_⟩, unpublished, final⟩
          rw [if_neg good]
          rfl
      · rw [if_neg facts] at done ⊢
        have known : ({ m₀ with memory, deferPublication := false } :
          AuthorizedSidecarMemory).sources = m₀.sources := rfl
        rw [known] at done
        by_cases collides : ((m₀.sources.get source.sourceId).any fun known =>
            known.sha256 ≠ source.sha256) = true
        · rw [if_pos collides] at done ⊢
          cases done
          exact ⟨m₀, rfl, unpublished, final⟩
        · rw [if_neg collides] at done ⊢
          cases done
          refine ⟨m₀.record source compilation m₀.memory, rfl, unpublished, ?_⟩
          refine (finalizePublication_eq_ok ?_).mpr ⟨memory, published, rfl⟩
          exact unpublished.1

end AuthorizedSidecarMemory

namespace Registry

variable {c : Crypto} {g : Registry}

variable {r : SidecarRecord}

theorem decodeRecord_eq_ok {authority : SidecarAuthority} {compilation : SidecarCompilation}
    {batch : CausalAdapterBatch Unit} :
    g.decodeRecord c r = .ok (authority, compilation, batch) ↔
      g.get r.adapterId = some authority ∧
        (r.scope = g.scope ∧ r.authoritySha256 = authority.sha256 c) ∧
        r.sourceSha256 = hexSha256 c (encode r.content) ∧
        compilation = ⟨r.facts, r.completenessClaims⟩ ∧
        batch = ⟨r.sourceId, r.content, g.scope, []⟩ := by
  simp only [decodeRecord, bind_eq_ok, orThrow_eq_ok, require_eq_ok, pure_eq_ok, Prod.mk.injEq]
  constructor
  · rintro ⟨authority', known, -, sealed, -, digest, rfl, rfl, rfl⟩
    exact ⟨known, sealed, digest, rfl, rfl⟩
  · rintro ⟨known, sealed, digest, rfl, rfl⟩
    exact ⟨authority, known, (), sealed, (), digest, rfl, rfl, rfl⟩

theorem ingestRecord_newRecord {δ : Type} (d : DurableAuthorizedSidecarMemory)
    (authority : SidecarAuthority) (known : d.registry.get authority.adapterId = some authority)
    (m : AuthorizedSidecarMemory) (after : List SidecarRecord) (batch : CausalAdapterBatch δ)
    (compilation : SidecarCompilation) :
    d.registry.ingestRecord c m (d.newRecord c after authority batch compilation) =
      m.ingest c (replayAdapter Unit authority compilation)
        ⟨batch.sourceId, batch.content, d.registry.scope, []⟩ := by
  have decoded : d.registry.decodeRecord c (d.newRecord c after authority batch compilation) =
      .ok (authority, compilation, ⟨batch.sourceId, batch.content, d.registry.scope, []⟩) :=
    decodeRecord_eq_ok.mpr ⟨known, ⟨rfl, rfl⟩, rfl, rfl, rfl⟩
  unfold ingestRecord
  rw [decoded, ok_bind]

theorem unpublished_of_foldlM {rs : List SidecarRecord}
    {s s' : AuthorizedSidecarMemory × Option SidecarIngestReceipt} (unpublished : s.1.Unpublished)
    (h : rs.foldlM (g.replayRecord c) s = .ok s') : s'.1.Unpublished := by
  induction rs generalizing s with
  | nil =>
    cases h
    exact unpublished
  | cons r rs ih =>
    simp only [List.foldlM_cons, bind_eq_ok] at h
    obtain ⟨next, replayed, rest⟩ := h
    refine ih ?_ rest
    simp only [replayRecord, ingestRecord, bind_eq_ok, require_eq_ok, pure_eq_ok,
      Prod.exists] at replayed
    obtain ⟨receipt, m, ⟨authority, compilation, batch, -, ingested⟩, -, -, rfl⟩ := replayed
    exact AuthorizedSidecarMemory.unpublished_of_ingest unpublished ingested

theorem recover_append {rs : List SidecarRecord} {m m' : AuthorizedSidecarMemory}
    {last : Option SidecarIngestReceipt} {receipt : SidecarIngestReceipt}
    (recovered : g.recover c rs = .ok (m, last))
    (ingested : g.ingestRecord c m.fork r = .ok (receipt, m'))
    (taken : receipt.state = .applied ∨ receipt.state = .idempotent) :
    g.recover c (rs ++ [r]) = .ok (m', some receipt) := by
  simp only [recover, bind_eq_ok, pure_eq_ok, Prod.mk.injEq, Prod.exists] at recovered
  obtain ⟨start, made, replayed, last', folded, m'', final, rfl, rfl⟩ := recovered
  have fresh : start.Unpublished := by
    obtain rfl := AuthorizedSidecarMemory.eq_of_make made
    exact ⟨rfl, rfl⟩
  have unpublished : replayed.Unpublished := unpublished_of_foldlM fresh folded
  have published : m''.fork = m'' := by
    obtain ⟨memory, finalMemory, rfl⟩ :=
      (AuthorizedSidecarMemory.finalizePublication_eq_ok unpublished.1).mp final
    obtain ⟨e, -, rfl⟩ :=
      (StandaloneCausalMemory.finalizePublication_eq_ok unpublished.2).mp finalMemory
    rfl
  rw [published] at ingested
  simp only [ingestRecord, bind_eq_ok, Prod.exists] at ingested
  obtain ⟨authority, compilation, batch, decoded, ingested⟩ := ingested
  obtain ⟨replayed', again, -, final'⟩ :=
    AuthorizedSidecarMemory.ingest_unpublished unpublished final ingested
  have step : g.replayRecord c (replayed, last') r = .ok (replayed', some receipt) := by
    simp only [replayRecord, ingestRecord, decoded, ok_bind, again, require_of taken]
    rfl
  simp only [recover, made, ok_bind, List.foldlM_append, folded, List.foldlM_cons, step,
    List.foldlM_nil, pure, Except.pure, final']

end Registry

namespace DurableAuthorizedSidecarMemory

variable {c : Crypto} {g : Registry} {d : DurableAuthorizedSidecarMemory}

theorem openStore_eq_ok {store : List Bytes} : openStore c g store = .ok d ↔
    (g.scope ≠ "" ∧ g.authorities ≠ [] ∧ (g.authorities.map fun a => a.adapterId).Nodup) ∧
      readRecords c 1 genesis store = .ok d.records ∧
      (∃ last, g.recover c d.records = .ok (d.memory, last)) ∧ d.registry = g ∧
      d.recordBytes = d.records.map SidecarRecord.bytes := by
  simp only [openStore, bind_eq_ok, require_eq_ok, pure_eq_ok, Prod.exists]
  constructor
  · rintro ⟨-, known, records, read, memory, last, recovered, rfl⟩
    exact ⟨known, read, ⟨last, recovered⟩, rfl, rfl⟩
  · rintro ⟨known, read, ⟨last, recovered⟩, rfl, bytes⟩
    refine ⟨(), known, d.records, read, d.memory, last, recovered, ?_⟩
    rw [← bytes]

theorem openStore_of_recover {rs : List SidecarRecord} {m : AuthorizedSidecarMemory}
    {last : Option SidecarIngestReceipt}
    (known : g.scope ≠ "" ∧ g.authorities ≠ [] ∧ (g.authorities.map fun a => a.adapterId).Nodup)
    (chained : Chained c 1 genesis rs) (recovered : g.recover c rs = .ok (m, last)) :
    openStore c g (rs.map SidecarRecord.bytes) = .ok ⟨g, rs, rs.map SidecarRecord.bytes, m⟩ :=
  openStore_eq_ok.mpr ⟨known, readRecords_bytes chained, ⟨last, recovered⟩, rfl, rfl⟩

variable {store : List Bytes} {δ : Type} {adapter : SidecarIngestAdapter δ}
  {batch : CausalAdapterBatch δ} {authority : SidecarAuthority} {receipt : SidecarIngestReceipt}
  {next : DurableAuthorizedSidecarMemory}

/-- What `ingest` is about to commit: the batch of a registered authority, applied to a fork. -/
theorem stageIngest_eq_ok : d.stageIngest c adapter batch = .ok (authority, receipt, next) ↔
    adapter.authority = some authority ∧ d.registry.get authority.adapterId = some authority ∧
      ∃ compilation memory, adapter.compileSidecar batch = .ok compilation ∧
        d.registry.ingestRecord c d.memory.fork
          (d.newRecord c d.records authority batch compilation) = .ok (receipt, memory) ∧
        receipt.state = .applied ∧
        next = d.moved (d.records ++ [d.newRecord c d.records authority batch compilation])
          (d.recordBytes ++ [(d.newRecord c d.records authority batch compilation).bytes])
          memory := by
  simp only [stageIngest, bind_eq_ok, orThrow_eq_ok, require_eq_ok, mapError_eq_ok, pure_eq_ok,
    Prod.mk.injEq, Prod.exists]
  constructor
  · rintro ⟨supplied, declared, -, registered, compilation, compiled, persisted, reloaded, receipt',
      memory, ingested, -, applied, rfl, rfl, rfl⟩
    rw [SidecarRecord.reload_eq_ok c rfl, Except.ok.injEq] at reloaded
    subst reloaded
    exact ⟨declared, registered, compilation, memory, compiled, ingested, applied, rfl⟩
  · rintro ⟨declared, registered, compilation, memory, compiled, ingested, applied, rfl⟩
    exact ⟨authority, declared, (), registered, compilation, compiled, _,
      SidecarRecord.reload_eq_ok c rfl, receipt, memory, ingested, (), applied, rfl, rfl, rfl⟩

variable {purged : CausalDeleteReceipt} {factIds : List Nat} {remove : List Nat} {sourceId : String}

/-- What `replace_fact_ids` is about to commit: the ledger without the facts, and the batch behind
it. -/
theorem of_stageReplace
    (staged : d.stageReplace c adapter batch remove = .ok (authority, receipt, next)) :
    ∃ compilation retained memory last, adapter.compileSidecar batch = .ok compilation ∧
      recordsWithoutFactIds c d.registry remove d.records = .ok retained ∧
      d.registry.recover c (retained ++ [d.newRecord c retained authority batch compilation]) =
        .ok (memory, last) ∧
      receipt.state = .applied ∧
      next = d.moved (retained ++ [d.newRecord c retained authority batch compilation])
        ((retained ++ [d.newRecord c retained authority batch compilation]).map
          SidecarRecord.bytes) memory := by
  simp only [stageReplace, bind_eq_ok, orThrow_eq_ok, require_eq_ok, mapError_eq_ok, pure_eq_ok,
    Prod.mk.injEq, Prod.exists] at staged
  obtain ⟨-, -, supplied, -, -, -, -, -, compilation, compiled, retained, filtered, -, -, -, -, -,
    -, -, -, memory, last, recovered, receipt', -, -, applied, rfl, rfl, rfl⟩ := staged
  exact ⟨compilation, retained, memory, last, compiled, filtered, recovered, applied, rfl⟩

/-- What `purge_fact_ids` is about to commit: the ledger without the facts it selects. -/
theorem stagePurge_eq_ok :
    d.stagePurge c factIds sourceId = .ok (purged, next) ↔
      (sourceId ≠ "" ∧ factIds ≠ [] ∧ Canonical factIds) ∧
      purgeSelection d.memory.attestedFacts factIds ≠ [] ∧
      ∃ candidate memory last, recordsWithoutFactIds c d.registry
          (purgeSelection d.memory.attestedFacts factIds) d.records = .ok candidate ∧
        d.registry.recover c candidate = .ok (memory, last) ∧
        purged = ⟨.purged, sourceId,
          (purgeSelection d.memory.attestedFacts factIds).dedup.insertionSort (· ≤ ·),
          ledgerHead d.records, ledgerHead candidate,
          "sidecar facts removed; remaining ledger rechained and revalidated"⟩ ∧
        next = d.moved candidate (candidate.map SidecarRecord.bytes) memory := by
  simp only [stagePurge, bind_eq_ok, require_eq_ok, mapError_eq_ok, pure_eq_ok,
    Prod.mk.injEq, Prod.exists]
  constructor
  · rintro ⟨-, asked, -, known, candidate, filtered, memory, last, recovered, rfl, rfl⟩
    exact ⟨asked, known, candidate, memory, last, filtered, recovered, rfl, rfl⟩
  · rintro ⟨asked, known, candidate, memory, last, filtered, recovered, rfl, rfl⟩
    exact ⟨(), asked, (), known, candidate, filtered, memory, last, recovered, rfl, rfl⟩

theorem openStore_of_stageIngest (opened : openStore c d.registry store = .ok d)
    (staged : d.stageIngest c adapter batch = .ok (authority, receipt, next)) :
    next.registry = d.registry ∧ receipt.state = .applied ∧
      openStore c d.registry next.recordBytes = .ok next := by
  obtain ⟨known, read, ⟨last, recovered⟩, -, bytes⟩ := openStore_eq_ok.mp opened
  obtain ⟨-, -, compilation, memory, -, ingested, applied, rfl⟩ := stageIngest_eq_ok.mp staged
  have chained := chained_newRecord d authority batch compilation (chained_of_readRecords read)
  have onward := Registry.recover_append recovered ingested (.inl applied)
  refine ⟨rfl, applied, ?_⟩
  have opens := openStore_of_recover known chained onward
  rw [List.map_append, ← bytes] at opens
  exact opens

theorem openStore_of_stageReplace (opened : openStore c d.registry store = .ok d)
    (staged : d.stageReplace c adapter batch remove = .ok (authority, receipt, next)) :
    next.registry = d.registry ∧ receipt.state = .applied ∧
      openStore c d.registry next.recordBytes = .ok next := by
  obtain ⟨known, -⟩ := openStore_eq_ok.mp opened
  obtain ⟨compilation, retained, memory, last, -, filtered, recovered, applied, rfl⟩ :=
    of_stageReplace staged
  have chained := chained_newRecord d authority batch compilation
    (chained_recordsWithoutFactIds filtered)
  exact ⟨rfl, applied, openStore_of_recover known chained recovered⟩

theorem openStore_of_stagePurge (opened : openStore c d.registry store = .ok d)
    (staged : d.stagePurge c factIds sourceId = .ok (purged, next)) :
    next.registry = d.registry ∧ purged.state = .purged ∧
      openStore c d.registry next.recordBytes = .ok next := by
  obtain ⟨known, -⟩ := openStore_eq_ok.mp opened
  obtain ⟨-, -, candidate, memory, last, filtered, recovered, rfl, rfl⟩ :=
    stagePurge_eq_ok.mp staged
  have chained := chained_recordsWithoutFactIds filtered
  exact ⟨rfl, rfl, openStore_of_recover known chained recovered⟩

end DurableAuthorizedSidecarMemory

/-- A call on a durable memory, with the exception its store raises if it comes to write. -/
inductive Call (δ : Type) where
  | ingest (failure : Option String) (adapter : SidecarIngestAdapter δ)
      (batch : CausalAdapterBatch δ)
  | replace (failure : Option String) (adapter : SidecarIngestAdapter δ)
      (batch : CausalAdapterBatch δ) (remove : List Nat)
  | purge (failure : Option String) (factIds : List Nat) (sourceId : String)

/-- What a call returns or raises. -/
inductive Report where
  | ingested (outcome : Except PyError SidecarIngestReceipt)
  | purged (outcome : Except PyError CausalDeleteReceipt)

/-- The call returned `APPLIED` or `PURGED`. -/
def Report.Committed : Report → Prop
  | .ingested (.ok receipt) => receipt.state = .applied
  | .purged (.ok receipt) => receipt.state = .purged
  | .ingested (.error _) => False
  | .purged (.error _) => False

def Host.call {δ : Type} (c : Crypto) (h : Host) : Call δ → Host × Report
  | .ingest failure adapter batch =>
    let (outcome, h') := h.ingest c failure adapter batch
    (h', .ingested outcome)
  | .replace failure adapter batch remove =>
    let (outcome, h') := h.replaceFactIds c failure adapter batch remove
    (h', .ingested outcome)
  | .purge failure factIds sourceId =>
    let (outcome, h') := h.purgeFactIds c failure factIds sourceId
    (h', .purged outcome)

def ledgerMachine (c : Crypto) (δ : Type) : Machine Host (Call δ) Report :=
  ⟨fun h call => some (h.call c call)⟩

def Host.Synced (c : Crypto) (h : Host) : Prop :=
  DurableAuthorizedSidecarMemory.openStore c h.durable.registry h.store = .ok h.durable

section

variable {δ : Type} {c : Crypto} {h h' : Host}

private theorem commit_cases {ρ : Type} (h : Host) (failure : Option String)
    (next : DurableAuthorizedSidecarMemory) (done : ρ) (failed : String → ρ) :
    (h.commit failure next done failed).2 = h ∨
      h.commit failure next done failed = (.ok done, ⟨next, next.recordBytes⟩) := by
  cases failure with
  | some error => exact .inl rfl
  | none => exact .inr rfl

theorem synced_next {next : DurableAuthorizedSidecarMemory} {g : Registry}
    (same : next.registry = g)
    (opens : DurableAuthorizedSidecarMemory.openStore c g next.recordBytes = .ok next) :
    Host.Synced c ⟨next, next.recordBytes⟩ := by
  unfold Host.Synced
  rw [same]
  exact opens

theorem call_cases (synced : h.Synced c) (call : Call δ) :
    (h.call c call).1 = h ∨ ((h.call c call).2.Committed ∧ (h.call c call).1.Synced c ∧
      (h.call c call).1.durable.registry = h.durable.registry) := by
  cases call with
  | ingest failure adapter batch =>
    simp only [Host.call, Host.ingest]
    cases staged : h.durable.stageIngest c adapter batch with
    | error receipt => exact .inl rfl
    | ok stage =>
      obtain ⟨authority, receipt, next⟩ := stage
      obtain ⟨registry, applied, opens⟩ :=
        DurableAuthorizedSidecarMemory.openStore_of_stageIngest synced staged
      simp only
      rcases commit_cases h failure next receipt fun error =>
        DurableAuthorizedSidecarMemory.reject c batch authority .rejectedDurability
          ("atomic sidecar commit failed: " ++ error) with unmoved | moved
      · exact .inl unmoved
      · rw [moved]
        exact .inr ⟨applied, synced_next registry opens, registry⟩
  | replace failure adapter batch remove =>
    simp only [Host.call, Host.replaceFactIds]
    cases staged : h.durable.stageReplace c adapter batch remove with
    | error outcome => exact .inl rfl
    | ok stage =>
      obtain ⟨authority, receipt, next⟩ := stage
      obtain ⟨registry, applied, opens⟩ :=
        DurableAuthorizedSidecarMemory.openStore_of_stageReplace synced staged
      simp only
      rcases commit_cases h failure next receipt fun error =>
        DurableAuthorizedSidecarMemory.reject c batch authority .rejectedDurability
          ("atomic sidecar replacement failed: " ++ error) with unmoved | moved
      · exact .inl unmoved
      · rw [moved]
        exact .inr ⟨applied, synced_next registry opens, registry⟩
  | purge failure factIds sourceId =>
    simp only [Host.call, Host.purgeFactIds]
    cases staged : h.durable.stagePurge c factIds sourceId with
    | error outcome => exact .inl rfl
    | ok stage =>
      obtain ⟨receipt, next⟩ := stage
      obtain ⟨registry, purged, opens⟩ :=
        DurableAuthorizedSidecarMemory.openStore_of_stagePurge synced staged
      simp only
      rcases commit_cases h failure next receipt fun error =>
        { receipt with
          state := .rejectedDurability
          newHeadSha256 := receipt.previousHeadSha256
          reason := "atomic sidecar purge failed: " ++ error } with unmoved | moved
      · exact .inl unmoved
      · rw [moved]
        exact .inr ⟨purged, synced_next registry opens, registry⟩

theorem synced_of_run {calls : List (Call δ)} {reports : List Report} (synced : h.Synced c)
    (ran : (ledgerMachine c δ).run h calls = some (h', reports)) :
    h'.Synced c ∧ h'.durable.registry = h.durable.registry := by
  apply Machine.invariant_run (I := fun s => s.Synced c ∧ s.durable.registry = h.durable.registry)
    ?_ ⟨synced, rfl⟩ ran
  rintro s call next report ⟨synced, registry⟩ stepped
  have stepped : s.call c call = (next, report) := Option.some.inj stepped
  have moves := call_cases synced call
  rw [stepped] at moves
  rcases moves with unmoved | ⟨-, moved, same⟩
  · simp only at unmoved
    rw [unmoved]
    exact ⟨synced, registry⟩
  · exact ⟨moved, same.trans registry⟩

end

theorem call_of_stageIngest {δ : Type} {c : Crypto} {h : Host} {adapter : SidecarIngestAdapter δ}
    {batch : CausalAdapterBatch δ} {authority : SidecarAuthority}
    {receipt : SidecarIngestReceipt} {next : DurableAuthorizedSidecarMemory}
    (staged : h.durable.stageIngest c adapter batch = .ok (authority, receipt, next)) :
    h.call c (.ingest none adapter batch) =
      (⟨next, next.recordBytes⟩, .ingested (.ok receipt)) := by
  simp only [Host.call, Host.ingest, staged, Host.commit]

/-- Two memories answer alike. -/
structure SameAnswers (c : Crypto) (a b : AuthorizedSidecarMemory) : Prop where
  attested : a.attestedFacts = b.attestedFacts
  verified : ∀ factId, a.verifyAttestation c factId = b.verifyAttestation c factId
  certified : ∀ subject predicate asOf, a.completenessCertificate c subject predicate asOf =
    b.completenessCertificate c subject predicate asOf
  queried : ∀ sumDecimals program asOf, a.query c sumDecimals program asOf =
    b.query c sumDecimals program asOf
  queriedCertified : ∀ sumDecimals program certificate asOf,
    a.queryCertified c sumDecimals program certificate asOf =
      b.queryCertified c sumDecimals program certificate asOf

theorem SameAnswers.refl (c : Crypto) (m : AuthorizedSidecarMemory) : SameAnswers c m m where
  attested := rfl
  verified _ := rfl
  certified _ _ _ := rfl
  queried _ _ _ := rfl
  queriedCertified _ _ _ _ := rfl

/-- After any calls and any failures of the store, a memory opened on the store holds the records
of the live one and answers as it does; and a call that commits nothing changes nothing. -/
theorem live_is_recovery {δ : Type} (c : Crypto) (g : Registry) (store : List Bytes)
    (d : DurableAuthorizedSidecarMemory)
    (opened : DurableAuthorizedSidecarMemory.openStore c g store = .ok d) (calls : List (Call δ))
    (h : Host) (reports : List Report)
    (ran : (ledgerMachine c δ).run ⟨d, store⟩ calls = some (h, reports)) :
    (∃ fresh, DurableAuthorizedSidecarMemory.openStore c g h.store = .ok fresh ∧
      fresh.records = h.durable.records ∧ SameAnswers c h.durable.memory fresh.memory) ∧
    ∀ call next report, (ledgerMachine c δ).step h call = some (next, report) →
      ¬ report.Committed → next.store = h.store ∧ next.durable.records = h.durable.records ∧
        ledgerHead next.durable.records = ledgerHead h.durable.records ∧
        SameAnswers c next.durable.memory h.durable.memory := by
  obtain ⟨-, -, -, registry, -⟩ := DurableAuthorizedSidecarMemory.openStore_eq_ok.mp opened
  have start : Host.Synced c ⟨d, store⟩ := by
    unfold Host.Synced
    rw [registry]
    exact opened
  obtain ⟨synced, kept⟩ := synced_of_run start ran
  refine ⟨⟨h.durable, ?_, rfl, .refl c _⟩, ?_⟩
  · have opens : DurableAuthorizedSidecarMemory.openStore c h.durable.registry h.store =
        .ok h.durable := synced
    rw [kept, registry] at opens
    exact opens
  · intro call next report stepped quiet
    have stepped : h.call c call = (next, report) := Option.some.inj stepped
    have moves := call_cases synced call
    rw [stepped] at moves
    rcases moves with unmoved | ⟨committed, -⟩
    · simp only at unmoved
      rw [unmoved]
      exact ⟨rfl, rfl, rfl, .refl c _⟩
    · exact absurd committed quiet

def noteRecord (c : Crypto) (after : List SidecarRecord) (compilation : SidecarCompilation) :
    SidecarRecord :=
  noteLedger.newRecord c after noteAuthority noteBatch compilation

def noteRecords (c : Crypto) : List SidecarRecord :=
  let first := noteRecord c [] (emptyNotes c)
  [first, noteRecord c [first] (oneNote c)]

def noteHost (c : Crypto) : Host :=
  let records := noteRecords c
  ⟨⟨noteRegistry, records, records.map SidecarRecord.bytes, noteHeld c⟩,
    records.map SidecarRecord.bytes⟩

def noteCalls (c : Crypto) : List (Call Unit) :=
  [.ingest none (replayAdapter Unit noteAuthority (emptyNotes c)) noteBatch,
    .ingest none (replayAdapter Unit noteAuthority (oneNote c)) noteBatch]

def noteMiddle (c : Crypto) : DurableAuthorizedSidecarMemory :=
  let r := noteRecord c [] (emptyNotes c)
  ⟨noteRegistry, [r], [r.bytes], noteEmpty c⟩

theorem stage_emptyNotes (c : Crypto) : ∃ receipt,
    noteLedger.stageIngest c (replayAdapter Unit noteAuthority (emptyNotes c)) noteBatch =
      .ok (noteAuthority, receipt, noteMiddle c) := by
  obtain ⟨receipt, applied, ingested⟩ := ingest_emptyNotes c
  have replayed := Registry.ingestRecord_newRecord (c := c) noteLedger noteAuthority rfl
    noteLedger.memory.fork [] noteBatch (emptyNotes c)
  exact ⟨receipt, DurableAuthorizedSidecarMemory.stageIngest_eq_ok.mpr
    ⟨rfl, rfl, emptyNotes c, noteEmpty c, rfl, replayed.trans ingested, applied, rfl⟩⟩

theorem stage_oneNote (c : Crypto) : ∃ receipt,
    (noteMiddle c).stageIngest c (replayAdapter Unit noteAuthority (oneNote c)) noteBatch =
      .ok (noteAuthority, receipt, (noteHost c).durable) := by
  obtain ⟨receipt, applied, ingested⟩ := ingest_oneNote c (noNotes_noteEmpty c)
  have replayed := Registry.ingestRecord_newRecord (c := c) (noteMiddle c) noteAuthority rfl
    (noteEmpty c).fork (noteMiddle c).records noteBatch (oneNote c)
  exact ⟨receipt, DurableAuthorizedSidecarMemory.stageIngest_eq_ok.mpr
    ⟨rfl, rfl, oneNote c, noteHeld c, rfl, replayed.trans ingested, applied, rfl⟩⟩

theorem run_noteCalls (c : Crypto) : ∃ reports,
    (ledgerMachine c Unit).run ⟨noteLedger, []⟩ (noteCalls c) = some (noteHost c, reports) := by
  obtain ⟨first, staged⟩ := stage_emptyNotes c
  obtain ⟨second, staged'⟩ := stage_oneNote c
  refine ⟨[.ingested (.ok first), .ingested (.ok second)], ?_⟩
  exact (Machine.run_cons_eq_some _).mpr ⟨⟨noteMiddle c, (noteMiddle c).recordBytes⟩, _, _,
    congrArg some (call_of_stageIngest staged), (Machine.run_cons_eq_some _).mpr ⟨noteHost c, _, [],
      congrArg some (call_of_stageIngest staged'), rfl, rfl⟩, rfl⟩

theorem recover_emptyNotes (c : Crypto) : ∃ last,
    noteRegistry.recover c [noteRecord c [] (emptyNotes c)] = .ok (noteEmpty c, last) := by
  obtain ⟨receipt, staged⟩ := stage_emptyNotes c
  have opened := (DurableAuthorizedSidecarMemory.openStore_of_stageIngest
    (openStore_noteLedger c) staged).2.2
  exact (DurableAuthorizedSidecarMemory.openStore_eq_ok.mp opened).2.2.1

theorem live_is_recovery_notes : ∃ fresh,
    DurableAuthorizedSidecarMemory.openStore stdCrypto noteRegistry (noteHost stdCrypto).store =
        .ok fresh ∧
      fresh.records = noteRecords stdCrypto ∧
      SameAnswers stdCrypto (noteHeld stdCrypto) fresh.memory := by
  obtain ⟨reports, ran⟩ := run_noteCalls stdCrypto
  exact (live_is_recovery stdCrypto noteRegistry [] noteLedger (openStore_noteLedger stdCrypto)
    (noteCalls stdCrypto) (noteHost stdCrypto) reports ran).1

end ProofRay.Sidecar
