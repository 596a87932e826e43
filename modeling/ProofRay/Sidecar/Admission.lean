/- When a batch is taken: the conditions each memory checks, gathered, and what a batch that meets
   them leaves behind. -/

import ProofRay.Sidecar.Ledger

namespace ProofRay.Sidecar

open Engine (Crypto PyError)
open Lib (Dict)
open Lib.Guard
open CausalSourceEnvelope (sealed verify)

private theorem not_any {α : Type} {o : Option α} {p : α → Bool} :
    ¬ o.any p = true ↔ ∀ a ∈ o, ¬ p a = true := by
  cases o <;> simp

namespace StandaloneCausalMemory

/-- The facts of a batch that the causal memory does not refuse. -/
structure Acceptable (c : Crypto) (m : StandaloneCausalMemory) (source : CausalSourceEnvelope)
    (proposed : List TypedCausalFact) : Prop where
  nonempty : proposed ≠ []
  canonical : Canonical (proposed.map fun f => f.factId)
  fromSource : ∀ f ∈ proposed, f.scope = m.scope ∧ f.sourceId = source.sourceId ∧
    f.sourceSha256 = source.sha256
  cited : ∀ f ∈ proposed, verifyMicrocitation c f.toFactFields source = true
  sameSource : ∀ known ∈ m.sources.get source.sourceId, known.sha256 = source.sha256
  sameFacts : ∀ f ∈ proposed, ∀ known ∈ m.facts.get f.factId, known = f

variable {c : Crypto} {m : StandaloneCausalMemory} {source : CausalSourceEnvelope}
  {proposed : List TypedCausalFact} {δ : Type} {batch : CausalAdapterBatch δ}

theorem refuse_eq_none : m.refuse c source proposed = none ↔ m.Acceptable c source proposed := by
  have agree : (proposed.filter fun f => (m.facts.get f.factId).any fun known => known ≠ f) = [] ↔
      ∀ f ∈ proposed, ∀ known ∈ m.facts.get f.factId, known = f := by
    simp only [List.filter_eq_nil_iff, not_any, decide_eq_true_eq, not_not]
  unfold refuse
  simp only [ite_some_eq_none, not_or, not_not, not_any, decide_eq_true_eq, agree, and_true]
  constructor
  · rintro ⟨⟨nonempty, canonical⟩, fromSource, cited, sameSource, sameFacts⟩
    exact ⟨nonempty, canonical, fromSource, cited, sameSource, sameFacts⟩
  · rintro ⟨nonempty, canonical, fromSource, cited, sameSource, sameFacts⟩
    exact ⟨⟨nonempty, canonical⟩, fromSource, cited, sameSource, sameFacts⟩

theorem state_of_refuse : ∀ r ∈ m.refuse c source proposed,
    r.state ≠ .applied ∧ r.state ≠ .idempotent := by
  unfold refuse
  refine forall_mem_ite_some ⟨nofun, nofun⟩ (forall_mem_ite_some ⟨nofun, nofun⟩
    (forall_mem_ite_some ⟨nofun, nofun⟩ (forall_mem_ite_some ⟨nofun, nofun⟩
      (forall_mem_ite_some ⟨nofun, nofun⟩ nofun))))

theorem screen_eq (scope : batch.scope = m.scope)
    (sealing : sealed c batch.sourceId batch.content = .ok source) :
    m.screen c batch proposed =
      match m.refuse c source proposed with
      | some refusal => .error refusal
      | none =>
        if m.novel proposed = [] then
          .error ⟨.idempotent, proposed.map fun f => f.factId, "identical batch already committed"⟩
        else if m.missing proposed = [] then .ok source
        else .error ⟨.rejectedCausal, m.missing proposed,
          "causal edge references an unknown FactId"⟩ := by
  unfold screen
  rw [require_of scope, ok_bind, sealing]
  simp only [Except.mapError, ok_bind]
  cases m.refuse c source proposed with
  | some refusal => rfl
  | none =>
    by_cases known : m.novel proposed = []
    · simp [known, require]
    · by_cases causes : m.missing proposed = []
      · simp [known, causes, require, pure, Except.pure]
      · simp [known, causes, require]

theorem ingest_eq (scope : batch.scope = m.scope)
    (sealing : sealed c batch.sourceId batch.content = .ok source)
    (fit : m.Acceptable c source proposed) : m.ingest c batch proposed =
      if m.novel proposed = [] then .ok (⟨.idempotent, proposed.map fun f => f.factId,
        "identical batch already committed"⟩, m)
      else if m.missing proposed = [] then (m.commit source proposed).map fun m' =>
        (⟨.applied, (m.novel proposed).map fun f => f.factId,
          "batch atomically committed and query index published"⟩, m')
      else .ok (⟨.rejectedCausal, m.missing proposed,
        "causal edge references an unknown FactId"⟩, m) := by
  unfold ingest
  rw [screen_eq scope sealing, refuse_eq_none.mpr fit]
  by_cases known : m.novel proposed = []
  · simp [known]
  · by_cases causes : m.missing proposed = []
    · simp only [known, causes, if_false, if_true]
      cases m.commit source proposed <;> rfl
    · simp [known, causes]

theorem of_ingest {outcome : Refusal} {m' : StandaloneCausalMemory}
    (h : m.ingest c batch proposed = .ok (outcome, m'))
    (taken : outcome.state = .applied ∨ outcome.state = .idempotent) :
    batch.scope = m.scope ∧ ∃ source,
      sealed c batch.sourceId batch.content = .ok source ∧
      m.Acceptable c source proposed ∧
      ((m.novel proposed = [] ∧ outcome.state = .idempotent ∧ m' = m) ∨
        (m.novel proposed ≠ [] ∧ m.missing proposed = [] ∧ outcome.state = .applied ∧
          m.commit source proposed = .ok m')) := by
  have refused : ∀ {state : IngestState} {ids : List Nat} {reason : String},
      state ≠ .applied → state ≠ .idempotent →
      (Except.ok (⟨state, ids, reason⟩, m) : Except PyError _) ≠ .ok (outcome, m') := by
    intro state ids reason notApplied notIdempotent same
    cases same
    rcases taken with taken | taken
    · exact notApplied taken
    · exact notIdempotent taken
  by_cases scope : batch.scope = m.scope
  swap
  · have screened : m.screen c batch proposed =
        .error ⟨.rejectedScope, [], "batch scope differs from memory scope"⟩ := by
      simp [screen, require, scope]
    rw [ingest, screened] at h
    exact absurd h (refused (by decide) (by decide))
  cases sealing : sealed c batch.sourceId batch.content with
  | error e =>
    have screened : m.screen c batch proposed =
        .error ⟨.rejectedAdapter, [], "causal source needs identity and content"⟩ := by
      simp [screen, require_of scope, sealing, Except.mapError]
    rw [ingest, screened] at h
    exact absurd h (refused (by decide) (by decide))
  | ok source =>
    cases screened : m.refuse c source proposed with
    | some refusal =>
      obtain ⟨notApplied, notIdempotent⟩ := state_of_refuse refusal screened
      rw [ingest, screen_eq scope sealing, screened] at h
      exact absurd h (refused notApplied notIdempotent)
    | none =>
      have fit := refuse_eq_none.mp screened
      rw [ingest_eq scope sealing fit] at h
      refine ⟨scope, source, rfl, fit, ?_⟩
      by_cases known : m.novel proposed = []
      · rw [if_pos known] at h
        cases h
        exact .inl ⟨known, rfl, rfl⟩
      · rw [if_neg known] at h
        by_cases causes : m.missing proposed = []
        · rw [if_pos causes] at h
          cases committed : m.commit source proposed with
          | error e =>
            rw [committed] at h
            cases h
          | ok after =>
            rw [committed] at h
            cases h
            exact .inr ⟨known, causes, rfl, rfl⟩
        · rw [if_neg causes] at h
          exact absurd h (refused (by decide) (by decide))

end StandaloneCausalMemory

def IngestState.Taken (s : IngestState) : Prop := s = .applied ∨ s = .idempotent

namespace AuthorizedSidecarMemory

/-- A compiled batch that the sidecar does not refuse. -/
structure Admissible (c : Crypto) (m : AuthorizedSidecarMemory) (authority : SidecarAuthority)
    (source : CausalSourceEnvelope) (compilation : SidecarCompilation) : Prop where
  withinLimits : compilation.facts.length ≤ m.limits.maxFactsPerBatch ∧
    compilation.completenessClaims.length ≤ m.limits.maxCompletenessClaimsPerBatch
  nonempty : ¬ (compilation.facts = [] ∧ compilation.completenessClaims = [])
  canonical : Canonical (compilation.facts.map fun item => item.fact.factId)
  fromSource : ∀ item ∈ compilation.facts, item.fact.scope = m.scope ∧
    item.fact.sourceId = source.sourceId ∧ item.fact.sourceSha256 = source.sha256
  permitted : ∀ item ∈ compilation.facts, authority.permits item.fact.toFactFields = true
  verified : ∀ item ∈ compilation.facts, item.verify c authority source = true
  sameAttestation : ∀ item ∈ compilation.facts,
    ∀ known ∈ m.attestations.get item.fact.factId, known = item
  oneOrbit : (compilation.facts.map fun item => (item.fact.key, item.fact.orbit)).Nodup
  lineage : ∀ item ∈ compilation.facts, m.lineage item = none
  claimsOrdered : (compilation.completenessClaims.map fun claim => claim.key).Pairwise keyBefore
  claimsAdmitted : ∀ claim ∈ compilation.completenessClaims,
    m.admits c authority source compilation.facts claim = true

variable {c : Crypto} {m : AuthorizedSidecarMemory} {authority : SidecarAuthority}
  {source : CausalSourceEnvelope} {compilation : SidecarCompilation}

theorem refuse_eq_none : m.refuse c authority source compilation = none ↔
    m.Admissible c authority source compilation := by
  have agree : (compilation.facts.filter fun item =>
      (m.attestations.get item.fact.factId).any fun known => known ≠ item) = [] ↔
      ∀ item ∈ compilation.facts, ∀ known ∈ m.attestations.get item.fact.factId, known = item := by
    simp only [List.filter_eq_nil_iff, not_any, decide_eq_true_eq, not_not]
  unfold refuse
  simp only [ite_some_eq_none, not_or, not_not, not_lt, agree]
  cases found : compilation.facts.findSome? m.lineage with
  | some reason =>
    obtain ⟨item, member, refused⟩ := List.exists_of_findSome?_eq_some found
    simp only [reduceCtorEq, and_false, false_iff]
    intro fit
    rw [fit.lineage item member] at refused
    cases refused
  | none =>
    have lineage := List.findSome?_eq_none_iff.mp found
    simp only [ite_some_eq_none, not_not, and_true]
    constructor
    · rintro ⟨limits, nonempty, canonical, fromSource, permitted, verified, same, orbits, ordered,
        admitted⟩
      exact ⟨limits, nonempty, canonical, fromSource, permitted, verified, same, orbits, lineage,
        ordered, admitted⟩
    · intro fit
      exact ⟨fit.withinLimits, fit.nonempty, fit.canonical, fit.fromSource, fit.permitted,
        fit.verified, fit.sameAttestation, fit.oneOrbit, fit.claimsOrdered, fit.claimsAdmitted⟩

theorem state_of_refuse : ∀ r ∈ m.refuse c authority source compilation, ¬ r.state.Taken := by
  have rejected {state : IngestState} {ids : List Nat} {reason : String}
      (notApplied : state ≠ .applied) (notIdempotent : state ≠ .idempotent) :
      ¬ (⟨state, ids, reason⟩ : Refusal).state.Taken := by
    rintro (taken | taken)
    · exact notApplied taken
    · exact notIdempotent taken
  unfold refuse
  refine forall_mem_ite_some (rejected nofun nofun) (forall_mem_ite_some (rejected nofun nofun)
    (forall_mem_ite_some (rejected nofun nofun) (forall_mem_ite_some (rejected nofun nofun)
      (forall_mem_ite_some (rejected nofun nofun) (forall_mem_ite_some (rejected nofun nofun)
        (forall_mem_ite_some (rejected nofun nofun)
          (forall_mem_ite_some (rejected nofun nofun) ?_)))))))
  split
  · intro r same
    cases same
    exact rejected nofun nofun
  · exact forall_mem_ite_some (rejected nofun nofun)
      (forall_mem_ite_some (rejected nofun nofun) nofun)

variable {δ : Type} {adapter : SidecarIngestAdapter δ} {batch : CausalAdapterBatch δ}

/-- A batch that comes to its checks. -/
structure Admitted (c : Crypto) (m : AuthorizedSidecarMemory) (adapter : SidecarIngestAdapter δ)
    (batch : CausalAdapterBatch δ) (authority : SidecarAuthority) (source : CausalSourceEnvelope)
    (compilation : SidecarCompilation) : Prop where
  withinBytes : batch.content.utf8ByteSize ≤ m.limits.maxSourceBytes
  supplied : adapter.authority = some authority
  trusted : m.trusted authority.adapterId = some authority
  scope : batch.scope = m.scope ∧ batch.scope ∈ authority.allowedScopes
  sealing : sealed c batch.sourceId batch.content = .ok source
  compiled : adapter.compileSidecar batch = .ok compilation

theorem screen_eq_ok : m.screen c adapter batch = .ok (authority, source, compilation) ↔
    m.Admitted c adapter batch authority source compilation := by
  simp only [screen, bind_eq_ok, require_eq_ok, orThrow_eq_ok, mapError_eq_ok, pure_eq_ok,
    Prod.mk.injEq]
  constructor
  · rintro ⟨-, bytes, authority', supplied, -, trusted, -, scope, source', sealing, compilation',
      compiled, rfl, rfl, rfl⟩
    exact ⟨bytes, supplied, trusted, scope, sealing, compiled⟩
  · intro fit
    exact ⟨(), fit.withinBytes, authority, fit.supplied, (), fit.trusted, (), fit.scope, source,
      fit.sealing, compilation, fit.compiled, rfl, rfl, rfl⟩

variable {memory : StandaloneCausalMemory} {receipt : SidecarIngestReceipt}
  {m' : AuthorizedSidecarMemory} {state : IngestState}

theorem state_of_screen (h : m.screen c adapter batch = .error receipt) :
    ¬ receipt.state.Taken := by
  simp only [screen, bind_eq_error, require_eq_error, orThrow_eq_error, mapError_eq_error,
    pure_ne_error, require_eq_ok, orThrow_eq_ok, mapError_eq_ok, and_false, exists_const] at h
  rcases h with ⟨-, rfl⟩ | ⟨-, ⟨-, rfl⟩ | ⟨supplied, -, ⟨-, rfl⟩ | ⟨-, ⟨-, rfl⟩ |
    ⟨-, ⟨e, -, rfl⟩ | ⟨source, -, ⟨e, -, rfl⟩ | ⟨-, absurd⟩⟩⟩⟩⟩⟩
  all_goals first
    | exact absurd.elim
    | rintro (taken | taken) <;> cases taken

/-- How a batch that passed every check goes in. -/
inductive Published (c : Crypto) (m : AuthorizedSidecarMemory) (batch : CausalAdapterBatch δ)
    (source : CausalSourceEnvelope) (compilation : SidecarCompilation) :
    IngestState → StandaloneCausalMemory → Prop where
  | facts {core : Refusal} {state : IngestState} {memory : StandaloneCausalMemory}
      (some_fact : compilation.facts ≠ [])
      (ingested : m.memory.ingest c batch (compilation.facts.map fun item => item.fact) =
        .ok (core, memory))
      (outcome : core.state = state) (taken : state.Taken) :
      Published c m batch source compilation state memory
  | claims {state : IngestState} (no_fact : compilation.facts = [])
      (sameSource : ∀ known ∈ m.sources.get source.sourceId, known.sha256 = source.sha256)
      (outcome : state = if compilation.completenessClaims ≠ [] ∧
        ∀ claim ∈ compilation.completenessClaims, m.completeness.get claim.key = some claim
        then .idempotent else .applied) :
      Published c m batch source compilation state m.memory

theorem of_publish {outcome : Refusal}
    (h : m.publish c source compilation batch = .ok (outcome, m')) (taken : outcome.state.Taken) :
    ∃ memory, Published c m batch source compilation outcome.state memory ∧
      m' = m.record source compilation memory := by
  unfold publish at h
  by_cases facts : compilation.facts ≠ []
  · simp only [if_pos facts, bind_eq_ok, Prod.exists] at h
    obtain ⟨core, memory, ingested, rest⟩ := h
    by_cases good : core.state = .applied ∨ core.state = .idempotent
    · rw [if_pos good] at rest
      cases rest
      exact ⟨memory, .facts facts ingested rfl good, rfl⟩
    · rw [if_neg good] at rest
      cases rest
      exact absurd taken good
  · simp only [if_neg facts] at h
    by_cases collides : ((m.sources.get source.sourceId).any fun known =>
        known.sha256 ≠ source.sha256) = true
    · rw [if_pos collides] at h
      cases h
      rcases taken with taken | taken <;> cases taken
    · rw [if_neg collides] at h
      cases h
      refine ⟨m.memory, .claims (not_not.mp facts) ?_ rfl, rfl⟩
      simpa only [not_any, decide_eq_true_eq, not_not] using collides

theorem publish_of (published : Published c m batch source compilation state memory) :
    ∃ outcome, outcome.state = state ∧
      m.publish c source compilation batch = .ok (outcome, m.record source compilation memory) := by
  cases published with
  | facts some_fact ingested outcome taken =>
    rename_i core
    refine ⟨done core.state core.factIds, outcome, ?_⟩
    rw [← outcome] at taken
    unfold publish
    rw [if_pos some_fact, ingested, ok_bind]
    exact if_pos (show core.state = .applied ∨ core.state = .idempotent from taken)
  | claims no_fact sameSource outcome =>
    have fits : ¬ ((m.sources.get source.sourceId).any fun known =>
        known.sha256 ≠ source.sha256) = true := by
      simpa only [not_any, decide_eq_true_eq, not_not] using sameSource
    refine ⟨done state [], rfl, ?_⟩
    unfold publish
    rw [if_neg (not_not.mpr no_fact), if_neg fits, outcome]

theorem of_ingest (h : m.ingest c adapter batch = .ok (receipt, m')) (taken : receipt.state.Taken) :
    ∃ authority source compilation memory, m.Admitted c adapter batch authority source compilation ∧
      m.Admissible c authority source compilation ∧
      Published c m batch source compilation receipt.state memory ∧
      m' = m.record source compilation memory := by
  unfold ingest at h
  cases admitted : m.screen c adapter batch with
  | error refused =>
    rw [admitted] at h
    cases h
    exact absurd taken (state_of_screen admitted)
  | ok admission =>
    obtain ⟨authority, source, compilation⟩ := admission
    rw [admitted] at h
    simp only at h
    cases screened : m.refuse c authority source compilation with
    | some refusal =>
      rw [screened] at h
      cases h
      exact absurd taken (state_of_refuse refusal screened)
    | none =>
      simp only [screened, bind_eq_ok, pure_eq_ok, Prod.mk.injEq, Prod.exists] at h
      obtain ⟨outcome, after, published, rfl, rfl⟩ := h
      obtain ⟨memory, how, rfl⟩ := of_publish published taken
      exact ⟨authority, source, compilation, memory, screen_eq_ok.mp admitted,
        refuse_eq_none.mp screened, how, rfl⟩

theorem ingest_of (admitted : m.Admitted c adapter batch authority source compilation)
    (fit : m.Admissible c authority source compilation)
    (published : Published c m batch source compilation state memory) :
    ∃ receipt, receipt.state = state ∧
      m.ingest c adapter batch = .ok (receipt, m.record source compilation memory) := by
  obtain ⟨outcome, same, published⟩ := publish_of published
  refine ⟨⟨outcome.state, authority.adapterId, authority.sha256 c, outcome.factIds, source.sha256,
    outcome.reason⟩, same, ?_⟩
  unfold ingest
  rw [screen_eq_ok.mpr admitted]
  simp only [refuse_eq_none.mpr fit, published, ok_bind]
  rfl

end AuthorizedSidecarMemory

def noteAuthority : SidecarAuthority where
  adapterId := "notes"
  ruleId := "declared"
  ruleVersion := 1
  schemaSha256 := "0000000000000000000000000000000000000000000000000000000000000000"
  allowedScopes := ["s"]
  allowedPredicates := ["p"]
  purpose := "audit"
  closedWorldPredicates := ["p"]
  checked := by decide

def noteRegistry : Registry := ⟨"s", [noteAuthority]⟩

def noteLedger : DurableAuthorizedSidecarMemory where
  registry := noteRegistry
  records := []
  recordBytes := []
  memory :=
    { scope := "s"
      purpose := "audit"
      authorities := [noteAuthority]
      limits := .default
      memory := .new "s" false
      deferPublication := false
      attestations := .empty
      sources := .empty
      completeness := .empty
      supersededBy := .empty
      factsByKey := .empty }

theorem openStore_noteLedger (c : Crypto) :
    DurableAuthorizedSidecarMemory.openStore c noteRegistry [] = .ok noteLedger := rfl

def noteBatch : CausalAdapterBatch Unit := ⟨"doc", "x", "s", []⟩

def noteSource (c : Crypto) : CausalSourceEnvelope := ⟨"doc", "x", hexSha256 c (encode "x")⟩

def noteFact (c : Crypto) : TypedCausalFact where
  factId := 1
  scope := "s"
  subject := "a"
  predicate := "p"
  value := "x"
  observedAt := 0
  eventTime := 0
  version := 1
  unit := ""
  polarity := 1
  asserted := true
  eventId := "e"
  causes := []
  sourceId := "doc"
  sourceSha256 := (noteSource c).sha256
  sourceSpan := (0, 1)
  checked := by
    refine ⟨by simp, by simp, .inr rfl, ⟨.nil, by simp⟩, ⟨by simp, ?_⟩, Nat.one_pos⟩
    exact isSha256_hexSha256 c _

def noteLifecycle : SidecarLifecycle where
  validFrom := 0
  validUntil := none
  purpose := "audit"
  authorizationReference := "declared"
  supersedes := []
  checked := ⟨nofun, by decide, by decide, .nil⟩

def noteItem (c : Crypto) : AttestedSidecarFact where
  fact := noteFact c
  lifecycle := noteLifecycle
  authoritySha256 := noteAuthority.sha256 c
  attestationSha256 := factAttestation c (noteAuthority.sha256 c) (noteFact c).toFactFields
    noteLifecycle.toLifecycleFields none
  routeMetadata := none
  checked := ⟨isSha256_digest c _ _, isSha256_factAttestation c _ _ _ _⟩

def noteClaim (c : Crypto) (factIds : List Nat) : AttestedCompletenessClaim :=
  ⟨"s", "a", "p", factIds, "doc", (noteSource c).sha256, noteAuthority.sha256 c,
    AttestedCompletenessClaim.attestation c noteAuthority (noteSource c) "s" "a" "p" factIds⟩

theorem verify_noteSource (c : Crypto) : (noteSource c).verify c = true := by
  simp [verify, noteSource]

theorem verify_noteItem (c : Crypto) :
    (noteItem c).verify c noteAuthority (noteSource c) = true := by
  refine (AttestedSidecarFact.verify_eq_true c).mpr ⟨rfl, rfl, ?_⟩
  simp only [verifyMicrocitation, verify_noteSource, Bool.true_and, Bool.and_eq_true,
    decide_eq_true_eq]
  refine ⟨⟨⟨rfl, rfl⟩, by simp [noteSource, noteItem, noteFact]⟩, ?_⟩
  show slice "x" 0 1 = "x"
  decide

theorem verify_noteClaim (c : Crypto) {factIds : List Nat} (canonical : Canonical factIds) :
    (noteClaim c factIds).verify c noteAuthority (noteSource c) = true := by
  refine (AttestedCompletenessClaim.verify_eq_true c).mpr ⟨verify_noteSource c, ?_⟩
  unfold AttestedCompletenessClaim.sealForScope
  rw [require_of ⟨by simp [noteClaim], by simp [noteClaim, noteAuthority], by simp [noteClaim],
    by simp [noteClaim, noteAuthority], canonical⟩]
  rfl

def emptyNotes (c : Crypto) : SidecarCompilation := ⟨[], [noteClaim c []]⟩

def oneNote (c : Crypto) : SidecarCompilation := ⟨[noteItem c], [noteClaim c [1]]⟩

def noteEmpty (c : Crypto) : AuthorizedSidecarMemory :=
  noteLedger.memory.fork.record (noteSource c) (emptyNotes c) noteLedger.memory.fork.memory

def noteCore (c : Crypto) : StandaloneCausalMemory :=
  ⟨"s", Dict.empty.set 1 (noteFact c), Dict.empty.set "doc" (noteSource c),
    some ⟨[noteFact c], "s"⟩, false⟩

def noteHeld (c : Crypto) : AuthorizedSidecarMemory :=
  (noteEmpty c).fork.record (noteSource c) (oneNote c) (noteCore c)

theorem admitted_noteBatch {c : Crypto} {m : AuthorizedSidecarMemory}
    (compilation : SidecarCompilation) (scope : m.scope = "s") (limits : m.limits = .default)
    (trusted : m.trusted "notes" = some noteAuthority) :
    m.Admitted c (replayAdapter Unit noteAuthority compilation) noteBatch noteAuthority
      (noteSource c) compilation where
  withinBytes := by
    rw [limits]
    exact Nat.le_add_left 1 (16 * 1024 * 1024 - 1)
  supplied := rfl
  trusted := trusted
  scope := ⟨scope.symm, List.mem_singleton.mpr rfl⟩
  sealing := rfl
  compiled := rfl

theorem ingest_emptyNotes (c : Crypto) : ∃ receipt, receipt.state = .applied ∧
    noteLedger.memory.fork.ingest c (replayAdapter Unit noteAuthority (emptyNotes c)) noteBatch =
      .ok (receipt, noteEmpty c) := by
  refine AuthorizedSidecarMemory.ingest_of (admitted_noteBatch _ rfl rfl rfl) ?_
    (.claims rfl nofun ?_)
  · exact {
      withinLimits := ⟨Nat.zero_le _, Nat.le_add_left 1 9999⟩
      nonempty := by simp [emptyNotes]
      canonical := .nil
      fromSource := List.forall_mem_nil _
      permitted := List.forall_mem_nil _
      verified := List.forall_mem_nil _
      sameAttestation := List.forall_mem_nil _
      oneOrbit := .nil
      lineage := List.forall_mem_nil _
      claimsOrdered := List.pairwise_singleton _ _
      claimsAdmitted := by
        intro claim member
        rw [List.mem_singleton.mp member]
        simp only [AuthorizedSidecarMemory.admits, verify_noteClaim c .nil, Bool.true_and,
          Bool.and_eq_true, decide_eq_true_eq]
        exact ⟨rfl, rfl⟩ }
  · have absent : noteLedger.memory.fork.completeness.get (noteClaim c []).key = none := rfl
    simp [emptyNotes, absent]

structure NoNotes (m : AuthorizedSidecarMemory) : Prop where
  scope : m.scope = "s"
  limits : m.limits = .default
  trusted : m.trusted "notes" = some noteAuthority
  memory : m.memory = .new "s" false
  attestations : m.attestations = .empty
  held : m.byKey ("a", "p") = .empty

theorem ingest_noteCore (c : Crypto) : ∃ outcome, outcome.state = .applied ∧
    (StandaloneCausalMemory.new "s" false).ingest c noteBatch [noteFact c] =
      .ok (outcome, noteCore c) := by
  have cited := ((AttestedSidecarFact.verify_eq_true c).mp (verify_noteItem c)).2.2
  have fit : (StandaloneCausalMemory.new "s" false).Acceptable c (noteSource c) [noteFact c] :=
    { nonempty := List.cons_ne_nil _ _
      canonical := List.pairwise_singleton _ _
      fromSource := List.forall_mem_singleton.mpr ⟨rfl, rfl, rfl⟩
      cited := List.forall_mem_singleton.mpr cited
      sameSource := nofun
      sameFacts := List.forall_mem_singleton.mpr nofun }
  rw [StandaloneCausalMemory.ingest_eq rfl rfl fit]
  exact ⟨_, rfl, rfl⟩

theorem population_note (c : Crypto) :
    selectedPopulation [(noteFact c).toFactFields] "a" "p" = some [1] := by
  have mine : [(noteFact c).toFactFields].filter (fun f => f.key = ("a", "p")) =
      [(noteFact c).toFactFields] := rfl
  have alone : orbits [(noteFact c).toFactFields] = ["e"] := rfl
  have same : [(noteFact c).toFactFields].filter (fun f => f.orbit = "e") =
      [(noteFact c).toFactFields] := rfl
  simp only [selectedPopulation, mine, latestOrbits, alone, List.mapM_cons, List.mapM_nil, same]
  rfl

theorem ingest_oneNote (c : Crypto) {m : AuthorizedSidecarMemory} (none : NoNotes m) :
    ∃ receipt, receipt.state = .applied ∧
      m.ingest c (replayAdapter Unit noteAuthority (oneNote c)) noteBatch =
        .ok (receipt, m.record (noteSource c) (oneNote c) (noteCore c)) := by
  obtain ⟨outcome, applied, ingested⟩ := ingest_noteCore c
  have first : m.lineage (noteItem c) = .none := by
    have previous : m.previous (noteItem c).fact.toFactFields = [] := by
      rw [AuthorizedSidecarMemory.previous, show (noteItem c).fact.key = ("a", "p") from rfl,
        none.held]
      rfl
    have named : (noteItem c).lifecycle.supersedes = [] := rfl
    simp [AuthorizedSidecarMemory.lineage, AuthorizedSidecarMemory.attested, none.attestations,
      previous, named]
  have counted : selectedPopulation (AuthorizedSidecarMemory.factsOf
      (m.prospective [noteItem c] ("a", "p"))) "a" "p" = some [1] := by
    have held : AuthorizedSidecarMemory.factsOf (m.prospective [noteItem c] ("a", "p")) =
        [(noteFact c).toFactFields] := by
      rw [AuthorizedSidecarMemory.prospective, none.held]
      rfl
    rw [held]
    exact population_note c
  have permitted : noteAuthority.permits (noteItem c).fact.toFactFields = true := rfl
  have fit : m.Admissible c noteAuthority (noteSource c) (oneNote c) :=
    { withinLimits := by
        rw [none.limits]
        exact ⟨Nat.le_add_left 1 99999, Nat.le_add_left 1 9999⟩
      nonempty := by simp [oneNote]
      canonical := List.pairwise_singleton _ _
      fromSource := List.forall_mem_singleton.mpr ⟨none.scope.symm, rfl, rfl⟩
      permitted := List.forall_mem_singleton.mpr permitted
      verified := List.forall_mem_singleton.mpr (verify_noteItem c)
      sameAttestation := List.forall_mem_singleton.mpr (by simp [none.attestations])
      oneOrbit := List.nodup_singleton _
      lineage := List.forall_mem_singleton.mpr first
      claimsOrdered := List.pairwise_singleton _ _
      claimsAdmitted := by
        intro claim member
        rw [List.mem_singleton.mp member]
        simp only [AuthorizedSidecarMemory.admits, Bool.true_and, Bool.and_eq_true,
          verify_noteClaim c (List.pairwise_singleton _ _), decide_eq_true_eq]
        exact ⟨none.scope.symm, counted⟩ }
  have published : AuthorizedSidecarMemory.Published c m noteBatch (noteSource c) (oneNote c)
      .applied (noteCore c) :=
    .facts (List.cons_ne_nil _ _) (none.memory ▸ ingested) applied (.inl rfl)
  exact AuthorizedSidecarMemory.ingest_of
    (admitted_noteBatch _ none.scope none.limits none.trusted) fit published

theorem noNotes_noteLedger : NoNotes noteLedger.memory.fork :=
  ⟨rfl, rfl, rfl, rfl, rfl, rfl⟩

theorem noNotes_noteEmpty (c : Crypto) : NoNotes (noteEmpty c).fork :=
  ⟨rfl, rfl, rfl, rfl, rfl, rfl⟩

end ProofRay.Sidecar
