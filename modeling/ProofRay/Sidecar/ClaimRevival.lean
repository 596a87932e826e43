/- Deletion and completeness claims: when a deletion leaves a pair without a claim, and the older
   claim that comes back when it does not. -/

import ProofRay.Sidecar.Replay

namespace ProofRay.Sidecar

open Engine (Bytes Crypto stdCrypto)
open Lib (Dict Machine)
open Lib.Guard
open AuthorizedSidecarMemory (beforeTime completenessCertificate eq_of_make factsOf
  finalizePublication population queryCertified)

namespace DurableAuthorizedSidecarMemory

variable {c : Crypto} {d : DurableAuthorizedSidecarMemory} {δ : Type}
  {adapter : SidecarIngestAdapter δ} {batch : CausalAdapterBatch δ}

variable {receipt : SidecarIngestReceipt}

/-- What `ingest` answers without a commit is not `APPLIED`. -/
theorem state_of_stageIngest (h : d.stageIngest c adapter batch = .error receipt) :
    receipt.state ≠ .applied := by
  simp only [stageIngest, bind_eq_error, orThrow_eq_error, require_eq_error, mapError_eq_error,
    pure_ne_error, Prod.exists, exists_const, and_false, or_false, require_eq_ok, orThrow_eq_ok,
    mapError_eq_ok] at h
  rcases h with ⟨-, rfl⟩ | ⟨supplied, -, ⟨-, rfl⟩ | ⟨-, ⟨e, -, rfl⟩ | ⟨compilation, -, ⟨e, -, rfl⟩ |
    ⟨persisted, -, ⟨e, -, rfl⟩ | ⟨receipt', memory, -, notApplied, rfl⟩⟩⟩⟩⟩
  all_goals first | exact notApplied | simp [reject]

/-- Nor is what `replace_fact_ids` answers. -/
theorem state_of_stageReplace {remove : List Nat}
    (h : d.stageReplace c adapter batch remove = .error (.ok receipt)) :
    receipt.state ≠ .applied := by
  simp only [stageReplace, bind_eq_error, orThrow_eq_error, require_eq_error, mapError_eq_error,
    pure_ne_error, Prod.exists, exists_const, and_false, or_false, require_eq_ok, orThrow_eq_ok,
    mapError_eq_ok, reduceCtorEq, exists_false, false_or, Except.ok.injEq] at h
  obtain ⟨-, h⟩ := h
  rcases h with ⟨-, rfl⟩ | ⟨supplied, -, ⟨-, rfl⟩ | ⟨-, ⟨-, rfl⟩ | ⟨-, ⟨e, -, rfl⟩ |
    ⟨compilation, -, retained, -, ⟨e, -, rfl⟩ | ⟨probe, last, -, ⟨e, -, rfl⟩ |
    ⟨validated, memory, -, ⟨notApplied, rfl⟩ | ⟨-, ⟨e, -, rfl⟩ | ⟨staged, last', -, ⟨-, rfl⟩ |
    ⟨receipt', -, -, rfl⟩⟩⟩⟩⟩⟩⟩⟩⟩
  all_goals first | exact notApplied | simp [reject]

/-- Nor is what `purge_fact_ids` answers `PURGED`. -/
theorem state_of_stagePurge {factIds : List Nat} {sourceId : String}
    {receipt : CausalDeleteReceipt} (h : d.stagePurge c factIds sourceId = .error (.ok receipt)) :
    receipt.state ≠ .purged := by
  simp only [stagePurge, bind_eq_error, require_eq_error, mapError_eq_error,
    pure_ne_error, exists_const, and_false, or_false, require_eq_ok,
    mapError_eq_ok, reduceCtorEq, exists_false, false_or, Except.ok.injEq] at h
  obtain ⟨-, h⟩ := h
  rcases h with ⟨-, rfl⟩ | ⟨-, candidate, -, e, -, rfl⟩
  all_goals simp

end DurableAuthorizedSidecarMemory

/-- What a call that commits moves to. -/
inductive Commits (c : Crypto) {δ : Type} (h : Host) :
    Call δ → DurableAuthorizedSidecarMemory → Prop where
  | ingest {adapter : SidecarIngestAdapter δ} {batch : CausalAdapterBatch δ}
      {authority : SidecarAuthority} {receipt : SidecarIngestReceipt}
      {next : DurableAuthorizedSidecarMemory}
      (staged : h.durable.stageIngest c adapter batch = .ok (authority, receipt, next)) :
      Commits c h (.ingest none adapter batch) next
  | replace {adapter : SidecarIngestAdapter δ} {batch : CausalAdapterBatch δ} {remove : List Nat}
      {authority : SidecarAuthority} {receipt : SidecarIngestReceipt}
      {next : DurableAuthorizedSidecarMemory}
      (staged : h.durable.stageReplace c adapter batch remove = .ok (authority, receipt, next)) :
      Commits c h (.replace none adapter batch remove) next
  | purge {factIds : List Nat} {sourceId : String} {receipt : CausalDeleteReceipt}
      {next : DurableAuthorizedSidecarMemory}
      (staged : h.durable.stagePurge c factIds sourceId = .ok (receipt, next)) :
      Commits c h (.purge none factIds sourceId) next

theorem commits_of_committed {c : Crypto} {δ : Type} {h : Host} {call : Call δ}
    (committed : (h.call c call).2.Committed) :
    ∃ next, Commits c h call next ∧ (h.call c call).1 = ⟨next, next.recordBytes⟩ := by
  cases call with
  | ingest failure adapter batch =>
    simp only [Host.call, Host.ingest] at committed ⊢
    cases staged : h.durable.stageIngest c adapter batch with
    | error receipt =>
      rw [staged] at committed
      exact absurd committed (DurableAuthorizedSidecarMemory.state_of_stageIngest staged)
    | ok stage =>
      obtain ⟨authority, receipt, next⟩ := stage
      rw [staged] at committed
      cases failure with
      | some error => cases committed
      | none => exact ⟨next, .ingest staged, rfl⟩
  | replace failure adapter batch remove =>
    simp only [Host.call, Host.replaceFactIds] at committed ⊢
    cases staged : h.durable.stageReplace c adapter batch remove with
    | error outcome =>
      rw [staged] at committed
      cases outcome with
      | error e => cases committed
      | ok receipt =>
        exact absurd committed (DurableAuthorizedSidecarMemory.state_of_stageReplace staged)
    | ok stage =>
      obtain ⟨authority, receipt, next⟩ := stage
      rw [staged] at committed
      cases failure with
      | some error => cases committed
      | none => exact ⟨next, .replace staged, rfl⟩
  | purge failure factIds sourceId =>
    simp only [Host.call, Host.purgeFactIds] at committed ⊢
    cases staged : h.durable.stagePurge c factIds sourceId with
    | error outcome =>
      rw [staged] at committed
      cases outcome with
      | error e => cases committed
      | ok receipt =>
        exact absurd committed (DurableAuthorizedSidecarMemory.state_of_stagePurge staged)
    | ok stage =>
      obtain ⟨receipt, next⟩ := stage
      rw [staged] at committed
      cases failure with
      | some error => cases committed
      | none => exact ⟨next, .purge staged, rfl⟩

def Unclaimed (records : List SidecarRecord) (key : Key) : Prop :=
  ∀ r ∈ records, ∀ claim ∈ r.completenessClaims, claim.key ≠ key

namespace Call

variable {δ : Type}

def removed (h : Host) : Call δ → List Nat
  | .ingest _ _ _ => []
  | .replace _ _ _ remove => remove
  | .purge _ factIds _ => purgeSelection h.durable.memory.attestedFacts factIds

def claims : Call δ → List AttestedCompletenessClaim
  | .ingest _ adapter batch | .replace _ adapter batch _ =>
    match adapter.compileSidecar batch with
    | .ok compilation => compilation.completenessClaims
    | .error _ => []
  | .purge _ _ _ => []

def Claims (call : Call δ) (key : Key) : Prop := ∃ claim ∈ call.claims, claim.key = key

def Clears (h : Host) (call : Call δ) (key : Key) : Prop :=
  ∀ r ∈ h.durable.records, ∀ claim ∈ r.claimsWithout (call.removed h), claim.key ≠ key

end Call

section

variable {c : Crypto} {g : Registry}

private theorem claim_of_reseal {authority : SidecarAuthority} {source : CausalSourceEnvelope}
    {scope subject predicate : String} {factIds : List Nat} {claim : AttestedCompletenessClaim}
    (h : AttestedCompletenessClaim.sealForScope c authority source scope subject predicate
      factIds = .ok claim) : claim.key = (subject, predicate) := by
  simp only [AttestedCompletenessClaim.sealForScope, bind_eq_ok, pure_eq_ok] at h
  obtain ⟨-, -, rfl⟩ := h
  rfl

variable {selected : List Nat}

theorem claims_of_without {r r' : SidecarRecord} (h : r.without c g selected = .ok (some r')) :
    ∀ claim ∈ r'.completenessClaims, ∃ kept ∈ r.claimsWithout selected, kept.key = claim.key := by
  unfold SidecarRecord.without at h
  simp only at h
  split at h
  · cases h
  · split at h
    · cases redacted : redactPartialRecord c g r (r.factsWithout selected)
        (r.claimsWithout selected) with
      | error e =>
        rw [redacted] at h
        cases h
      | ok made =>
        rw [redacted] at h
        cases h
        simp only [redactPartialRecord, bind_eq_ok, pure_eq_ok] at redacted
        obtain ⟨authority, -, original, -, -, -, source, -, resealed, -, claims, mapped, rfl⟩ :=
          redacted
        intro claim member
        obtain ⟨kept, member', made⟩ := mem_of_mapM_ok mapped claim member
        exact ⟨kept, member', (claim_of_reseal made).symm⟩
    · cases h
      exact fun claim member => ⟨claim, member, rfl⟩

private theorem claims_of_rechain {sequence : Nat} {previous : String} {rs : List SidecarRecord} :
    ∀ r' ∈ rechain c sequence previous rs, ∃ r ∈ rs,
      r'.completenessClaims = r.completenessClaims := by
  induction rs generalizing sequence previous with
  | nil => exact List.forall_mem_nil _
  | cons r rs ih =>
    intro r' member
    rcases List.mem_cons.mp member with rfl | later
    · exact ⟨r, List.mem_cons_self, rfl⟩
    · obtain ⟨old, member', same⟩ := ih r' later
      exact ⟨old, List.mem_cons_of_mem r member', same⟩

theorem claims_of_recordsWithoutFactIds {rs kept : List SidecarRecord}
    (h : recordsWithoutFactIds c g selected rs = .ok kept) :
    ∀ r' ∈ kept, ∀ claim ∈ r'.completenessClaims,
      ∃ r ∈ rs, ∃ old ∈ r.claimsWithout selected, old.key = claim.key := by
  simp only [recordsWithoutFactIds, bind_eq_ok, pure_eq_ok] at h
  obtain ⟨without, mapped, rfl⟩ := h
  intro r' member claim held
  obtain ⟨r, inKept, same⟩ := claims_of_rechain r' member
  rw [same] at held
  obtain ⟨stays, member', rfl⟩ := List.mem_filterMap.mp inKept
  obtain ⟨old, inLedger, made⟩ := mem_of_mapM_ok mapped _ member'
  exact ⟨old, inLedger, claims_of_without made claim held⟩

end

section

variable {c : Crypto} {g : Registry} {δ : Type} {h : Host} {key : Key}

variable {m : AuthorizedSidecarMemory} {rs : List SidecarRecord} {call : Call δ}

theorem Replayed.claim_of_record (replayed : Replayed c g rs m) {claim : AttestedCompletenessClaim}
    (held : m.completeness.get key = some claim) :
    ∃ r ∈ rs, claim ∈ r.completenessClaims ∧ claim.key = key := by
  induction replayed with
  | start made =>
    obtain rfl := eq_of_make made
    cases held
  | @next rs m r authority source memory before taken ih =>
    rcases Dict.get_update_eq_some held with brought | earlier
    · obtain ⟨claim', member, same⟩ := List.mem_map.mp brought
      cases same
      exact ⟨r, List.mem_append_right rs List.mem_cons_self, member, rfl⟩
    · obtain ⟨r', member, rest⟩ := ih earlier
      exact ⟨r', List.mem_append_left [r] member, rest⟩

theorem completeness_of_unclaimed {last : Option SidecarIngestReceipt}
    (recovered : g.recover c rs = .ok (m, last)) (unclaimed : Unclaimed rs key) :
    m.completeness.get key = none := by
  obtain ⟨m₀, replayed, final⟩ := recover_iff.mp ⟨last, recovered⟩
  have same : m.completeness = m₀.completeness := by
    unfold finalizePublication at final
    split at final
    · simp only [bind_eq_ok, pure_eq_ok] at final
      obtain ⟨memory, -, rfl⟩ := final
      rfl
    · cases final
      rfl
  rw [same]
  cases held : m₀.completeness.get key with
  | none => rfl
  | some claim =>
    obtain ⟨r, member, brought, here⟩ := replayed.claim_of_record held
    exact absurd here (unclaimed r member claim brought)

theorem unclaimed_of_commits {next : DurableAuthorizedSidecarMemory}
    (commits : Commits c h call next) (clears : call.Clears h key) (brings : ¬ call.Claims key) :
    Unclaimed next.records key := by
  have fresh {after : List SidecarRecord} {authority : SidecarAuthority}
      {batch : CausalAdapterBatch δ} {compilation : SidecarCompilation}
      (brought : call.claims = compilation.completenessClaims) :
      ∀ claim ∈ (h.durable.newRecord c after authority batch compilation).completenessClaims,
        claim.key ≠ key := by
    intro claim member here
    exact brings ⟨claim, brought ▸ member, here⟩
  cases commits with
  | @ingest adapter batch authority receipt next staged =>
    obtain ⟨-, -, compilation, memory, compiled, -, -, rfl⟩ :=
      DurableAuthorizedSidecarMemory.stageIngest_eq_ok.mp staged
    intro r member claim held
    rcases List.mem_append.mp member with old | new
    · refine clears r old claim ?_
      have whole : r.factsWithout [] = r.facts := by simp [SidecarRecord.factsWithout]
      have stays : ¬ (r.facts ≠ [] ∧ r.factsWithout [] = []) := by
        rintro ⟨some_fact, none⟩
        exact some_fact (whole ▸ none)
      show claim ∈ SidecarRecord.claimsWithout [] r
      rw [SidecarRecord.claimsWithout, if_neg stays]
      simpa using held
    · rw [List.mem_singleton.mp new] at held
      exact fresh (by simp only [Call.claims, compiled]) claim held
  | @replace adapter batch remove authority receipt next staged =>
    obtain ⟨compilation, retained, memory, last, compiled, filtered, -, -, rfl⟩ :=
      DurableAuthorizedSidecarMemory.of_stageReplace staged
    intro r member claim held
    rcases List.mem_append.mp member with old | new
    · obtain ⟨r', member', kept, stays, same⟩ :=
        claims_of_recordsWithoutFactIds filtered r old claim held
      rw [← same]
      exact clears r' member' kept stays
    · rw [List.mem_singleton.mp new] at held
      exact fresh (by simp only [Call.claims, compiled]) claim held
  | purge staged =>
    obtain ⟨-, -, candidate, memory, last, filtered, -, -, rfl⟩ :=
      DurableAuthorizedSidecarMemory.stagePurge_eq_ok.mp staged
    intro r member claim held
    obtain ⟨r', member', kept, stays, same⟩ :=
      claims_of_recordsWithoutFactIds filtered r member claim held
    rw [← same]
    exact clears r' member' kept stays

theorem clears_of_unclaimed (unclaimed : Unclaimed h.durable.records key) : call.Clears h key := by
  intro r member claim stays
  refine unclaimed r member claim ?_
  unfold SidecarRecord.claimsWithout at stays
  split at stays
  · cases stays
  · exact (List.mem_filter.mp stays).1

end

section

variable (c : Crypto) {δ : Type}

/-- A call deletes, when it commits, a fact of the population that was certified for the pair just
before. -/
structure CutsCertified (h : Host) (call : Call δ) (key : Key) : Prop where
  committed : (h.call c call).2.Committed
  cut : ∃ asOf certificate, h.durable.memory.completenessCertificate c key.1 key.2 asOf =
    some certificate ∧ ∃ id ∈ certificate.factIds, id ∈ call.removed h

/-- Neither a certificate nor an aggregate for the pair, until a committed batch brings a claim for
it. -/
def StaysRetired (h : Host) (δ : Type) (key : Key) : Prop :=
  ∀ (later : List (Call δ)) (h' : Host) (reports : List Report),
    (ledgerMachine c δ).Along
      (fun s call => (s.call c call).2.Committed → ¬ call.Claims key) h later →
    (ledgerMachine c δ).run h later = some (h', reports) →
    (∀ asOf, h'.durable.memory.completenessCertificate c key.1 key.2 asOf = none) ∧
    ∀ sumDecimals program certificate asOf,
      (program.selector.subject, program.selector.predicate) = key →
      (h'.durable.memory.queryCertified c sumDecimals program certificate asOf).state ≠ .resolved

end

section

variable {c : Crypto} {h : Host} {key : Key}

theorem retired_of_unclaimed (synced : h.Synced c) (unclaimed : Unclaimed h.durable.records key) :
    (∀ asOf, h.durable.memory.completenessCertificate c key.1 key.2 asOf = none) ∧
    ∀ sumDecimals program certificate asOf,
      (program.selector.subject, program.selector.predicate) = key →
      (h.durable.memory.queryCertified c sumDecimals program certificate asOf).state ≠
        .resolved := by
  obtain ⟨-, -, ⟨last, recovered⟩, -⟩ := DurableAuthorizedSidecarMemory.openStore_eq_ok.mp synced
  have gone := completeness_of_unclaimed recovered unclaimed
  have none (asOf : Option Int) :
      h.durable.memory.completenessCertificate c key.1 key.2 asOf = none := by
    simp only [completenessCertificate, Prod.mk.eta, gone]
  refine ⟨none, fun sumDecimals program certificate asOf here => ?_⟩
  subst here
  have stale : h.durable.memory.completenessCertificate c program.selector.subject
      program.selector.predicate asOf ≠ some certificate := by
    rw [none asOf]
    exact Option.some_ne_none certificate |>.symm
  unfold queryCertified
  split_ifs
  all_goals
    intro resolved
    cases resolved

theorem unclaimed_of_call {δ : Type} {call : Call δ} (synced : h.Synced c)
    (clears : call.Clears h key) (quiet : (h.call c call).2.Committed → ¬ call.Claims key)
    (unclaimed : ¬ (h.call c call).2.Committed → Unclaimed h.durable.records key) :
    (h.call c call).1.Synced c ∧ Unclaimed (h.call c call).1.durable.records key := by
  by_cases committed : (h.call c call).2.Committed
  · obtain ⟨next, commits, moved⟩ := commits_of_committed committed
    have after : (h.call c call).1.Synced c := by
      rcases call_cases synced call with unmoved | ⟨-, synced', -⟩
      · rw [unmoved]
        exact synced
      · exact synced'
    refine ⟨after, ?_⟩
    rw [moved]
    exact unclaimed_of_commits commits clears (quiet committed)
  · rcases call_cases synced call with unmoved | ⟨committed', -⟩
    · rw [unmoved]
      exact ⟨synced, unclaimed committed⟩
    · exact absurd committed' committed

theorem staysRetired_of_clears {δ : Type} {call : Call δ} (synced : h.Synced c)
    (cuts : CutsCertified c h call key) (clears : call.Clears h key) (brings : ¬ call.Claims key) :
    StaysRetired c (h.call c call).1 δ key := by
  intro later h' reports quiet ran
  have start : (h.call c call).1.Synced c ∧ Unclaimed (h.call c call).1.durable.records key :=
    unclaimed_of_call synced clears (fun _ => brings) fun idle => absurd cuts.committed idle
  have finish : h'.Synced c ∧ Unclaimed h'.durable.records key := by
    refine Machine.invariant_along (I := fun s : Host => s.Synced c ∧
      Unclaimed s.durable.records key) ?_ start quiet ran
    rintro s e next report ⟨synced', unclaimed⟩ quiet' stepped
    have stepped : s.call c e = (next, report) := Option.some.inj stepped
    have moves := unclaimed_of_call synced' (clears_of_unclaimed unclaimed) quiet'
      fun _ => unclaimed
    rw [stepped] at moves
    exact moves
  exact retired_of_unclaimed finish.1 finish.2

/-- In every run, after a deletion that takes a fact of the population certified just before and
with it every claim the ledger holds for the pair, the pair stays without a certificate until a
committed batch brings a claim for it. -/
theorem deletion_retires_claim {δ : Type} (c : Crypto) (g : Registry) (store : List Bytes)
    (d : DurableAuthorizedSidecarMemory)
    (opened : DurableAuthorizedSidecarMemory.openStore c g store = .ok d) (calls : List (Call δ))
    (h : Host) (reports : List Report)
    (ran : (ledgerMachine c δ).run ⟨d, store⟩ calls = some (h, reports)) (call : Call δ)
    (key : Key) (cuts : CutsCertified c h call key) (clears : call.Clears h key)
    (brings : ¬ call.Claims key) : StaysRetired c (h.call c call).1 δ key := by
  obtain ⟨-, -, -, registry, -⟩ := DurableAuthorizedSidecarMemory.openStore_eq_ok.mp opened
  have start : Host.Synced c ⟨d, store⟩ := by
    unfold Host.Synced
    rw [registry]
    exact opened
  exact staysRetired_of_clears (synced_of_run start ran).1 cuts clears brings

end

def notePurge : Call Unit := .purge none [1] "doc"

def noteAlone (c : Crypto) : Host :=
  let records := [noteRecord c [] (oneNote c)]
  ⟨⟨noteRegistry, records, records.map SidecarRecord.bytes,
      noteLedger.memory.fork.record (noteSource c) (oneNote c) (noteCore c)⟩,
    records.map SidecarRecord.bytes⟩

theorem run_noteAlone (c : Crypto) : ∃ reports, (ledgerMachine c Unit).run ⟨noteLedger, []⟩
    [.ingest none (replayAdapter Unit noteAuthority (oneNote c)) noteBatch] =
      some (noteAlone c, reports) := by
  obtain ⟨receipt, applied, ingested⟩ := ingest_oneNote c noNotes_noteLedger
  have replayed := Registry.ingestRecord_newRecord (c := c) noteLedger noteAuthority rfl
    noteLedger.memory.fork [] noteBatch (oneNote c)
  have staged : noteLedger.stageIngest c (replayAdapter Unit noteAuthority (oneNote c)) noteBatch =
      .ok (noteAuthority, receipt, (noteAlone c).durable) :=
    DurableAuthorizedSidecarMemory.stageIngest_eq_ok.mpr
      ⟨rfl, rfl, oneNote c, _, rfl, replayed.trans ingested, applied, rfl⟩
  refine ⟨[.ingested (.ok receipt)], (Machine.run_cons_eq_some _).mpr ⟨noteAlone c, _, [], ?_, rfl,
    rfl⟩⟩
  exact congrArg some (call_of_stageIngest staged)

theorem certificate_oneNote (c : Crypto) {m : AuthorizedSidecarMemory}
    (claimed : m.completeness.get ("a", "p") = some (noteClaim c [1]))
    (held : factsOf (m.byKey ("a", "p")) = [(noteFact c).toFactFields])
    (attests : m.attestations.get 1 = some (noteItem c)) :
    ∃ certificate, m.completenessCertificate c "a" "p" none = some certificate ∧
      1 ∈ certificate.factIds := by
  have counted : m.population "a" "p" = some [1] := by
    rw [population, held]
    exact population_note c
  have items : (noteClaim c [1]).factIds.filterMap m.attestations.get = [noteItem c] := by
    simp [noteClaim, attests]
  have readable : AuthorizedSidecarMemory.readable [noteItem c] none = true := rfl
  refine ⟨m.certificate c (noteClaim c [1]) "a" "p" [noteItem c] none, ?_,
    List.mem_singleton.mpr rfl⟩
  rw [completenessCertificate, claimed]
  simp only [items, counted, readable]
  rfl

theorem cutsCertified_noteAlone (c : Crypto) :
    CutsCertified c (noteAlone c) notePurge ("a", "p") := by
  obtain ⟨certificate, certified, member⟩ := certificate_oneNote c
    (m := (noteAlone c).durable.memory) rfl rfl rfl
  refine ⟨?_, none, certificate, certified, 1, member, List.mem_singleton.mpr rfl⟩
  have selected : purgeSelection (noteAlone c).durable.memory.attestedFacts [1] = [1] := rfl
  have staged : ∃ receipt, receipt.state = .purged ∧
      (noteAlone c).durable.stagePurge c [1] "doc" = .ok (receipt, noteLedger) :=
    ⟨_, rfl, DurableAuthorizedSidecarMemory.stagePurge_eq_ok.mpr
      ⟨⟨by decide, by decide, by decide⟩, ne_of_eq_of_ne selected (List.cons_ne_nil _ _), [],
        noteLedger.memory, none, rfl, rfl, rfl, rfl⟩⟩
  obtain ⟨receipt, purged, staged⟩ := staged
  simp only [notePurge, Host.call, Host.purgeFactIds, staged, Host.commit]
  exact purged

theorem deletion_retires_claim_note :
    StaysRetired stdCrypto ((noteAlone stdCrypto).call stdCrypto notePurge).1 Unit ("a", "p") := by
  obtain ⟨reports, ran⟩ := run_noteAlone stdCrypto
  exact deletion_retires_claim stdCrypto noteRegistry [] noteLedger
    (openStore_noteLedger stdCrypto) _ (noteAlone stdCrypto) reports ran notePurge ("a", "p")
    (cutsCertified_noteAlone stdCrypto) (List.forall_mem_singleton.mpr nofun)
    fun ⟨_, brought, _⟩ => nomatch brought

/-- What stays of the ledger of one note is the batch that closed the population while it was
empty. -/
theorem stage_notePurge (c : Crypto) : ∃ receipt, receipt.state = .purged ∧
    (noteHost c).durable.stagePurge c [1] "doc" = .ok (receipt, noteMiddle c) := by
  obtain ⟨last, recovered⟩ := recover_emptyNotes c
  have selected : purgeSelection (noteHost c).durable.memory.attestedFacts [1] = [1] := rfl
  have filtered : recordsWithoutFactIds c noteRegistry [1] (noteRecords c) =
      .ok [noteRecord c [] (emptyNotes c)] := rfl
  exact ⟨_, rfl, DurableAuthorizedSidecarMemory.stagePurge_eq_ok.mpr
    ⟨⟨by decide, by decide, by decide⟩, ne_of_eq_of_ne selected (List.cons_ne_nil _ _),
      [noteRecord c [] (emptyNotes c)], noteEmpty c, last, filtered, recovered, rfl, rfl⟩⟩

theorem cutsCertified_notePurge (c : Crypto) :
    CutsCertified c (noteHost c) notePurge ("a", "p") := by
  obtain ⟨receipt, purged, staged⟩ := stage_notePurge c
  obtain ⟨certificate, certified, member⟩ := certificate_oneNote c
    (m := (noteHost c).durable.memory) rfl rfl rfl
  refine ⟨?_, none, certificate, certified, 1, member, List.mem_singleton.mpr rfl⟩
  simp only [notePurge, Host.call, Host.purgeFactIds, staged, Host.commit]
  exact purged

theorem certificate_noteEmpty (c : Crypto) (sumDecimals : List String → Option String) :
    ∃ certificate, (noteEmpty c).completenessCertificate c "a" "p" none = some certificate ∧
      ((noteEmpty c).queryCertified c sumDecimals
        ⟨.countDistinct, ⟨"a", "p", none⟩, [], "", none, true⟩ certificate none).state =
          .resolved := by
  have certified : (noteEmpty c).completenessCertificate c "a" "p" none =
      some ((noteEmpty c).certificate c (noteClaim c []) "a" "p" [] none) := by
    have claimed : (noteEmpty c).completeness.get ("a", "p") = some (noteClaim c []) := rfl
    rw [completenessCertificate, claimed]
    exact if_pos ⟨rfl, rfl⟩
  have empty : ((noteEmpty c).certificate c (noteClaim c []) "a" "p" [] none).factIds = [] := rfl
  refine ⟨_, certified, ?_⟩
  simp [queryCertified, certified, empty, beforeTime, TypedCausalResult.resolved]

theorem not_staysRetired_notePurge (c : Crypto) :
    ¬ StaysRetired c ((noteHost c).call c notePurge).1 Unit ("a", "p") := by
  intro retired
  obtain ⟨receipt, -, staged⟩ := stage_notePurge c
  obtain ⟨certificate, certified, -⟩ := certificate_noteEmpty c fun _ => none
  have after : ((noteHost c).call c notePurge).1.durable.memory = noteEmpty c := by
    simp only [notePurge, Host.call, Host.purgeFactIds, staged, Host.commit]
    rfl
  have gone := (retired [] _ [] trivial rfl).1 none
  rw [after, certified] at gone
  cases gone

/-- A purge of the certified note brings the older claim back. -/
theorem purge_revives_claim :
    (∃ reports, (ledgerMachine stdCrypto Unit).run ⟨noteLedger, []⟩ (noteCalls stdCrypto) =
      some (noteHost stdCrypto, reports)) ∧
    CutsCertified stdCrypto (noteHost stdCrypto) notePurge ("a", "p") ∧
    ¬ notePurge.Claims ("a", "p") ∧
    ¬ StaysRetired stdCrypto ((noteHost stdCrypto).call stdCrypto notePurge).1 Unit ("a", "p") := by
  refine ⟨run_noteCalls stdCrypto, cutsCertified_notePurge stdCrypto, ?_,
    not_staysRetired_notePurge stdCrypto⟩
  rintro ⟨claim, brought, -⟩
  cases brought

end ProofRay.Sidecar
