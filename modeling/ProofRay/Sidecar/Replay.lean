/- Recovery as a relation: the records a memory takes one after the other, and what the memory of
   a ledger holds at every point of its replay. -/

import ProofRay.Sidecar.LedgerReopen

namespace ProofRay.Sidecar

open Engine (Crypto)
open Lib (Dict)
open Lib.Guard

namespace SidecarRecord

def compilation (r : SidecarRecord) : SidecarCompilation := ⟨r.facts, r.completenessClaims⟩

def batch (r : SidecarRecord) (scope : String) : CausalAdapterBatch Unit :=
  ⟨r.sourceId, r.content, scope, []⟩

end SidecarRecord

/-- A memory takes a record, under an authority, from a source, and with the causal memory as it
then is. -/
structure Takes (c : Crypto) (g : Registry) (m : AuthorizedSidecarMemory) (r : SidecarRecord)
    (authority : SidecarAuthority) (source : CausalSourceEnvelope)
    (memory : StandaloneCausalMemory) : Prop where
  registered : g.get r.adapterId = some authority
  bound : r.scope = g.scope ∧ r.authoritySha256 = authority.sha256 c
  digest : r.sourceSha256 = hexSha256 c (encode r.content)
  admitted : m.Admitted c (replayAdapter Unit authority r.compilation) (r.batch g.scope) authority
    source r.compilation
  fit : m.Admissible c authority source r.compilation
  published : ∃ state, AuthorizedSidecarMemory.Published c m (r.batch g.scope) source r.compilation
    state memory

/-- The memory a replay of the records leaves before it publishes. -/
inductive Replayed (c : Crypto) (g : Registry) : List SidecarRecord → AuthorizedSidecarMemory → Prop
  | start {m : AuthorizedSidecarMemory}
      (made : AuthorizedSidecarMemory.make c g.scope g.authorities .default true = .ok m) :
      Replayed c g [] m
  | next {rs : List SidecarRecord} {m : AuthorizedSidecarMemory} {r : SidecarRecord}
      {authority : SidecarAuthority} {source : CausalSourceEnvelope}
      {memory : StandaloneCausalMemory} (before : Replayed c g rs m)
      (taken : Takes c g m r authority source memory) :
      Replayed c g (rs ++ [r]) (m.record source r.compilation memory)

section

variable {c : Crypto} {g : Registry} {m m' : AuthorizedSidecarMemory} {r : SidecarRecord}

variable {s : AuthorizedSidecarMemory × Option SidecarIngestReceipt}
  {last : Option SidecarIngestReceipt} {rs : List SidecarRecord}

theorem of_replayRecord (h : g.replayRecord c (m, last) r = .ok s) : ∃ authority source memory,
      Takes c g m r authority source memory ∧ s.1 = m.record source r.compilation memory := by
  simp only [Registry.replayRecord, Registry.ingestRecord, bind_eq_ok, require_eq_ok, pure_eq_ok,
    Prod.exists] at h
  obtain ⟨receipt, m', ⟨authority, compilation, batch, decoded, ingested⟩, -, taken, rfl⟩ := h
  obtain ⟨registered, bound, digest, rfl, rfl⟩ := Registry.decodeRecord_eq_ok.mp decoded
  obtain ⟨authority', source, compilation', memory, admitted, fit, published, rfl⟩ :=
    AuthorizedSidecarMemory.of_ingest ingested taken
  have supplied : authority = authority' := Option.some.inj admitted.supplied
  have compiled : r.compilation = compilation' := Except.ok.inj admitted.compiled
  subst supplied
  subst compiled
  exact ⟨authority, source, memory, ⟨registered, bound, digest, admitted, fit, _, published⟩, rfl⟩

theorem replayRecord_of {authority : SidecarAuthority} {source : CausalSourceEnvelope}
    {memory : StandaloneCausalMemory} (taken : Takes c g m r authority source memory)
    (last : Option SidecarIngestReceipt) :
    ∃ receipt, g.replayRecord c (m, last) r =
      .ok (m.record source r.compilation memory, some receipt) := by
  obtain ⟨state, published⟩ := taken.published
  obtain ⟨receipt, same, ingested⟩ :=
    AuthorizedSidecarMemory.ingest_of taken.admitted taken.fit published
  have decoded : g.decodeRecord c r = .ok (authority, r.compilation, r.batch g.scope) :=
    Registry.decodeRecord_eq_ok.mpr ⟨taken.registered, taken.bound, taken.digest, rfl, rfl⟩
  have good : receipt.state = .applied ∨ receipt.state = .idempotent := by
    rw [same]
    cases published with
    | facts _ _ _ taken => exact taken
    | claims _ _ outcome =>
      rw [outcome]
      split
      · exact .inr rfl
      · exact .inl rfl
  refine ⟨receipt, ?_⟩
  simp only [Registry.replayRecord, Registry.ingestRecord, decoded, ok_bind, ingested]
  rw [require_of good]
  rfl

theorem replayed_of_foldlM {seen rs : List SidecarRecord} (before : Replayed c g seen m)
    (h : rs.foldlM (g.replayRecord c) (m, last) = .ok s) : Replayed c g (seen ++ rs) s.1 := by
  induction rs generalizing seen m last with
  | nil =>
    cases h
    rw [List.append_nil]
    exact before
  | cons r rs ih =>
    simp only [List.foldlM_cons, bind_eq_ok, Prod.exists] at h
    obtain ⟨m', last', replayed, rest⟩ := h
    obtain ⟨authority, source, memory, taken, same⟩ := of_replayRecord replayed
    have onward := Replayed.next before taken
    rw [← same] at onward
    rw [List.append_cons]
    exact ih onward rest

theorem foldlM_of_replayed (replayed : Replayed c g rs m) :
    ∃ start last, AuthorizedSidecarMemory.make c g.scope g.authorities .default true = .ok start ∧
      rs.foldlM (g.replayRecord c) (start, none) = .ok (m, last) := by
  induction replayed with
  | @start m made => exact ⟨m, none, made, rfl⟩
  | next before taken ih =>
    obtain ⟨start, last, made, folded⟩ := ih
    obtain ⟨receipt, step⟩ := replayRecord_of taken last
    refine ⟨start, some receipt, made, ?_⟩
    rw [List.foldlM_append, folded, ok_bind, List.foldlM_cons, step]
    rfl

theorem recover_iff : (∃ last, g.recover c rs = .ok (m, last)) ↔
    ∃ m₀, Replayed c g rs m₀ ∧ m₀.finalizePublication = .ok m := by
  simp only [Registry.recover, bind_eq_ok, pure_eq_ok, Prod.mk.injEq, Prod.exists]
  constructor
  · rintro ⟨last, start, made, m₀, last', folded, m', final, rfl, rfl⟩
    exact ⟨m₀, by simpa using replayed_of_foldlM (.start made) folded, final⟩
  · rintro ⟨m₀, replayed, final⟩
    obtain ⟨start, last, made, folded⟩ := foldlM_of_replayed replayed
    exact ⟨last, start, made, m₀, last, folded, m, final, rfl, rfl⟩

end

namespace StandaloneCausalMemory

variable {c : Crypto} {m m' : StandaloneCausalMemory} {proposed : List TypedCausalFact} {δ : Type}
  {batch : CausalAdapterBatch δ} {source : CausalSourceEnvelope}

/-- What a taken batch leaves: its facts beside the known ones, their causes known, and no new
source but its own, which comes with a new fact and under the digest it had. -/
structure Grown (m : StandaloneCausalMemory) (source : CausalSourceEnvelope)
    (proposed : List TypedCausalFact) (m' : StandaloneCausalMemory) : Prop where
  scope : m'.scope = m.scope
  deferred : m'.deferPublication = m.deferPublication
  facts : ∀ id f, m'.facts.get id = some f ↔
    (f ∈ proposed ∧ f.factId = id) ∨ m.facts.get id = some f
  causes : ∀ f ∈ proposed, m.facts.get f.factId = none → ∀ cause ∈ f.causes,
    ∃ known, m'.facts.get cause = some known
  sources : ∀ id known, m'.sources.get id = some known →
    (id = source.sourceId ∧ known = source ∧ ∃ f ∈ proposed, m.facts.get f.factId = none) ∨
      m.sources.get id = some known
  sourceOf : ∀ f ∈ proposed, m.facts.get f.factId = none →
    m'.sources.get source.sourceId = some source
  sameSource : ∀ id known, m.sources.get id = some known →
    ∃ known', m'.sources.get id = some known' ∧ known'.sha256 = known.sha256

theorem mem_novel {f : TypedCausalFact} :
    f ∈ m.novel proposed ↔ f ∈ proposed ∧ m.facts.get f.factId = none := by
  simp [novel]

theorem missing_eq_nil : m.missing proposed = [] ↔ ∀ f ∈ m.novel proposed, ∀ cause ∈ f.causes,
    cause ∈ m.facts.keys ∨ ∃ g ∈ m.novel proposed, g.factId = cause := by
  have sorted (l : List Nat) : l.insertionSort (· ≤ ·) = [] ↔ l = [] :=
    ⟨fun h => List.Perm.nil_eq (h ▸ List.perm_insertionSort _ _) |>.symm, fun h => by rw [h]; rfl⟩
  simp only [missing, sorted, List.dedup_eq_nil, List.filter_eq_nil_iff, List.mem_flatMap,
    decide_eq_true_eq, not_not, List.mem_append, List.mem_map]
  constructor
  · intro h f member cause named
    exact h cause ⟨f, member, named⟩
  · rintro h cause ⟨f, member, named⟩
    exact h f member cause named

theorem grown_of_ingest {outcome : Refusal}
    (h : m.ingest c batch proposed = .ok (outcome, m')) (taken : outcome.state.Taken)
    (sealing : CausalSourceEnvelope.sealed c batch.sourceId batch.content = .ok source) :
    m.Grown source proposed m' := by
  obtain ⟨-, source', sealing', fit, rest⟩ := of_ingest h taken
  have same : source' = source := Except.ok.inj (sealing'.symm.trans sealing)
  subst same
  rcases rest with ⟨known, -, rfl⟩ | ⟨some_fact, causes, -, committed⟩
  · have held : ∀ f ∈ proposed, m'.facts.get f.factId = some f := by
      intro f member
      cases found : m'.facts.get f.factId with
      | none => exact absurd (mem_novel.mpr ⟨member, found⟩) (known ▸ List.not_mem_nil)
      | some g => rw [fit.sameFacts f member g found]
    have nothing : ∀ f ∈ proposed, m'.facts.get f.factId ≠ none := by
      intro f member fresh
      rw [held f member] at fresh
      cases fresh
    refine ⟨rfl, rfl, fun id f => ⟨.inr, ?_⟩, fun f member fresh => absurd fresh (nothing f member),
      fun _ _ found => .inr found, fun f member fresh => absurd fresh (nothing f member),
      fun id known found => ⟨known, found, rfl⟩⟩
    rintro (⟨member, rfl⟩ | found)
    · exact held f member
    · exact found
  · simp only [commit, bind_eq_ok, pure_eq_ok] at committed
    obtain ⟨executor, -, rfl⟩ := committed
    have nodup : (((m.novel proposed).map fun f => (f.factId, f)).map Prod.fst).Nodup := by
      rw [List.map_map]
      exact (fit.canonical.imp fun h => Nat.ne_of_lt h).sublist
        (List.Sublist.map _ List.filter_sublist)
    have facts : ∀ id f, (m.facts.update ((m.novel proposed).map fun f => (f.factId, f))).get id =
        some f ↔ (f ∈ proposed ∧ f.factId = id) ∨ m.facts.get id = some f := by
      intro id f
      constructor
      · intro found
        rcases Dict.get_update_eq_some found with novel | before
        · obtain ⟨g, member, same⟩ := List.mem_map.mp novel
          cases same
          exact .inl ⟨(mem_novel.mp member).1, rfl⟩
        · exact .inr before
      · rintro (⟨member, rfl⟩ | before)
        · cases found : m.facts.get f.factId with
          | none =>
            exact Dict.get_update_of_mem nodup
              (List.mem_map.mpr ⟨f, mem_novel.mpr ⟨member, found⟩, rfl⟩)
          | some g =>
            rw [Dict.get_update_of_not_mem, found, fit.sameFacts f member g found]
            intro novel
            obtain ⟨e, member', same⟩ := List.mem_map.mp novel
            obtain ⟨g', novel', rfl⟩ := List.mem_map.mp member'
            have fresh := (mem_novel.mp novel').2
            rw [show g'.factId = f.factId from same, found] at fresh
            cases fresh
        · rw [Dict.get_update_of_not_mem, before]
          intro novel
          obtain ⟨e, member', same⟩ := List.mem_map.mp novel
          obtain ⟨g', novel', rfl⟩ := List.mem_map.mp member'
          have fresh := (mem_novel.mp novel').2
          rw [show g'.factId = id from same, before] at fresh
          cases fresh
    obtain ⟨first, novel⟩ := List.exists_mem_of_ne_nil _ some_fact
    refine ⟨rfl, rfl, facts, ?_, ?_, fun _ _ _ => Dict.get_set_self _ _ _, ?_⟩
    · intro f member fresh cause named
      rcases missing_eq_nil.mp causes f (mem_novel.mpr ⟨member, fresh⟩) cause named with
        known | ⟨g, novel, rfl⟩
      · obtain ⟨g, found⟩ := (Dict.mem_keys_iff _ _).mp known
        exact ⟨g, (facts cause g).mpr (.inr found)⟩
      · exact ⟨g, (facts g.factId g).mpr (.inl ⟨(mem_novel.mp novel).1, rfl⟩)⟩
    · intro id known found
      rw [Dict.get_set] at found
      split at found
      · rename_i same
        exact .inl ⟨same.symm, (Option.some.inj found).symm, first, mem_novel.mp novel⟩
      · exact .inr found
    · intro id known found
      by_cases same : source'.sourceId = id
      · subst same
        exact ⟨source', Dict.get_set_self _ _ _, (fit.sameSource known found).symm⟩
      · exact ⟨known, (Dict.get_set_ne _ _ same).trans found, rfl⟩

end StandaloneCausalMemory

theorem Canonical.ext {a b : List Nat} (left : Canonical a) (right : Canonical b)
    (same : ∀ id, id ∈ a ↔ id ∈ b) : a = b := by
  have nodup {l : List Nat} (canonical : Canonical l) : l.Nodup :=
    canonical.imp fun h => Nat.ne_of_lt h
  have perm := (List.perm_ext_iff_of_nodup (nodup left) (nodup right)).mpr same
  refine perm.eq_of_pairwise ?_ left right
  intro x y _ _ below above
  exact absurd below (Nat.lt_asymm above)

def FactFields.Kin (f g : FactFields) : Prop := f.key = g.key ∧ f.orbit = g.orbit

theorem FactFields.Kin.symm {f g : FactFields} (kin : f.Kin g) : g.Kin f :=
  ⟨kin.1.symm, kin.2.symm⟩

theorem FactFields.Kin.trans {f g h : FactFields} (first : f.Kin g) (second : g.Kin h) : f.Kin h :=
  ⟨first.1.trans second.1, first.2.trans second.2⟩

namespace AuthorizedSidecarMemory

def Attests (m : AuthorizedSidecarMemory) (id : Nat) (item : AttestedSidecarFact) : Prop :=
  m.attestations.get id = some item

def Active (m : AuthorizedSidecarMemory) (id : Nat) : Prop :=
  ∀ other item, m.Attests other item → id ∉ item.lifecycle.supersedes

/-- The indexes of a memory are functions of what it attests, the facts it attests know their
causes, and those of one orbit form a chain of rising versions whose last one is active. -/
structure Coherent (m : AuthorizedSidecarMemory) : Prop where
  ids : ∀ id item, m.Attests id item → item.fact.factId = id
  keys : ∀ key id item, (m.byKey key).get id = some item ↔ m.Attests id item ∧ item.fact.key = key
  superseded : ∀ id, m.supersededBy.get id = none ↔ m.Active id
  facts : ∀ id f, m.memory.facts.get id = some f ↔ ∃ item, m.Attests id item ∧ item.fact = f
  scope : m.memory.scope = m.scope
  sameScope : ∀ id item, m.Attests id item → item.fact.scope = m.scope
  causes : ∀ id item, m.Attests id item → ∀ cause ∈ item.fact.causes, ∃ other, m.Attests cause other
  lineage : ∀ id item, m.Attests id item → ∀ old ∈ item.lifecycle.supersedes,
    ∃ other, m.Attests old other ∧ other.fact.Kin item.fact.toFactFields
  chain : ∀ id item, m.Attests id item → ∃ top last, m.Attests top last ∧ m.Active top ∧
    last.fact.Kin item.fact.toFactFields ∧ ∀ other old, m.Attests other old →
      old.fact.Kin item.fact.toFactFields → other ≠ top →
        old.fact.version < last.fact.version ∧ ¬ m.Active other

variable {c : Crypto} {m : AuthorizedSidecarMemory}

variable {id : Nat} {item : AttestedSidecarFact}

theorem Attests.unique {a b : AttestedSidecarFact} (first : m.Attests id a)
    (second : m.Attests id b) : a = b :=
  Option.some.inj (first.symm.trans second)

theorem Coherent.mem_previous (coherent : m.Coherent) {fact : FactFields} :
    id ∈ m.previous fact ↔ ∃ item, m.Attests id item ∧ item.fact.Kin fact ∧ m.Active id := by
  have sorted (l : List Nat) : id ∈ l.insertionSort (· ≤ ·) ↔ id ∈ l :=
    (List.perm_insertionSort _ _).mem_iff
  simp only [previous, sorted, List.mem_map, List.mem_filter, Bool.and_eq_true, decide_eq_true_eq,
    Option.isNone_iff_eq_none, Prod.exists]
  constructor
  · rintro ⟨id', item, ⟨member, orbit, free⟩, rfl⟩
    obtain ⟨attests, key⟩ := (coherent.keys _ _ _).mp (((m.byKey _).get_eq_some_iff _ _).mpr member)
    exact ⟨item, attests, ⟨key, orbit⟩, (coherent.superseded _).mp free⟩
  · rintro ⟨item, attests, ⟨key, orbit⟩, free⟩
    have member := ((m.byKey _).get_eq_some_iff _ _).mp ((coherent.keys _ _ _).mpr ⟨attests, key⟩)
    exact ⟨id, item, ⟨member, orbit, (coherent.superseded _).mpr free⟩, rfl⟩

theorem canonical_previous (fact : FactFields) : Canonical (m.previous fact) := by
  have nodup : (m.previous fact).Nodup := by
    refine (List.perm_insertionSort _ _).nodup_iff.mpr ?_
    exact (m.byKey fact.key).nodup.sublist (List.Sublist.map _ List.filter_sublist)
  have sorted : (m.previous fact).Pairwise (· ≤ ·) := List.pairwise_insertionSort _ _
  exact (sorted.and nodup).imp fun h => Nat.lt_of_le_of_ne h.1 h.2

theorem Coherent.lineage_eq_none (coherent : m.Coherent) (fresh : ¬ m.Attests item.fact.factId item)
    : m.lineage item = none ↔
      (∀ id, id ∈ item.lifecycle.supersedes ↔
        ∃ old, m.Attests id old ∧ old.fact.Kin item.fact.toFactFields ∧ m.Active id) ∧
      ∀ id old, m.Attests id old → old.fact.Kin item.fact.toFactFields → m.Active id →
        old.fact.version < item.fact.version := by
  unfold AuthorizedSidecarMemory.lineage
  have novel : ¬ m.attested item = true := by
    simp only [attested, decide_eq_true_eq]
    exact fresh
  rw [if_neg novel]
  have named : item.lifecycle.supersedes = m.previous item.fact.toFactFields ↔
      ∀ id, id ∈ item.lifecycle.supersedes ↔
        ∃ old, m.Attests id old ∧ old.fact.Kin item.fact.toFactFields ∧ m.Active id := by
    simp only [← coherent.mem_previous]
    constructor
    · intro same id
      rw [same]
    · exact Canonical.ext item.lifecycle.checked.2.2.2 (canonical_previous _)
  have newer : ¬ ((m.previous item.fact.toFactFields).any fun id =>
      (m.attestations.get id).any fun old => item.fact.version ≤ old.fact.version) = true ↔
      ∀ id old, m.Attests id old → old.fact.Kin item.fact.toFactFields → m.Active id →
        old.fact.version < item.fact.version := by
    simp only [List.any_eq_true, Option.any_eq_true, coherent.mem_previous, decide_eq_true_eq]
    constructor
    · intro none id old attests kin active
      by_contra stale
      exact none ⟨id, ⟨old, attests, kin, active⟩, old, attests, Nat.le_of_not_lt stale⟩
    · rintro all ⟨id, ⟨old, attests, kin, active⟩, old', attests', stale⟩
      rw [Attests.unique attests attests'] at kin
      exact absurd stale (Nat.not_le_of_lt (all id old' attests' kin active))
  rw [← named, ← newer]
  by_cases same : item.lifecycle.supersedes = m.previous item.fact.toFactFields
  · rw [if_neg (not_not.mpr same)]
    split
    · rename_i stale
      simp [same, stale]
    · rename_i good
      simp [same, good]
  · simp [same]

/-- Items that go with what is attested: of the memory's scope, under new FactIds or known as they
are, one for an orbit, each behind the active facts of its orbit. -/
structure Fitting (m : AuthorizedSidecarMemory) (proposed : List AttestedSidecarFact) : Prop where
  canonical : Canonical (proposed.map fun item => item.fact.factId)
  sameScope : ∀ item ∈ proposed, item.fact.scope = m.scope
  sameAttestation : ∀ item ∈ proposed, ∀ known ∈ m.attestations.get item.fact.factId, known = item
  oneOrbit : (proposed.map fun item => (item.fact.key, item.fact.orbit)).Nodup
  lineage : ∀ item ∈ proposed, m.lineage item = none

theorem Admissible.fitting {authority : SidecarAuthority} {source : CausalSourceEnvelope}
    {compilation : SidecarCompilation} (fit : m.Admissible c authority source compilation) :
    m.Fitting compilation.facts where
  canonical := fit.canonical
  sameScope item member := (fit.fromSource item member).1
  sameAttestation := fit.sameAttestation
  oneOrbit := fit.oneOrbit
  lineage := fit.lineage

variable {source : CausalSourceEnvelope} {compilation : SidecarCompilation}
  {memory : StandaloneCausalMemory}

private theorem nodup_keys {items : List AttestedSidecarFact}
    (canonical : Canonical (items.map fun item => item.fact.factId)) :
    ((items.map fun item => (item.fact.factId, item)).map Prod.fst).Nodup := by
  rw [List.map_map]
  exact canonical.imp fun h => Nat.ne_of_lt h

theorem attests_record (fit : m.Fitting compilation.facts) :
    (m.record source compilation memory).Attests id item ↔
      (item ∈ compilation.facts ∧ item.fact.factId = id) ∨ m.Attests id item := by
  have nodup := nodup_keys fit.canonical
  constructor
  · intro attests
    rcases Dict.get_update_eq_some attests with brought | before
    · obtain ⟨item', member, same⟩ := List.mem_map.mp brought
      cases same
      exact .inl ⟨member, rfl⟩
    · exact .inr before
  · rintro (⟨member, rfl⟩ | before)
    · exact Dict.get_update_of_mem nodup (List.mem_map.mpr ⟨item, member, rfl⟩)
    · by_cases brought : id ∈ (compilation.facts.map fun item => (item.fact.factId, item)).map
          Prod.fst
      · obtain ⟨⟨id', item'⟩, member, rfl⟩ := List.mem_map.mp brought
        obtain ⟨known, member', same⟩ := List.mem_map.mp member
        cases same
        obtain rfl : item = item' := fit.sameAttestation item' member' item before
        exact Dict.get_update_of_mem nodup (List.mem_map.mpr ⟨item, member', rfl⟩)
      · exact (Dict.get_update_of_not_mem brought).trans before

theorem active_record (fit : m.Fitting compilation.facts) :
    (m.record source compilation memory).Active id ↔
      (∀ item ∈ compilation.facts, id ∉ item.lifecycle.supersedes) ∧ m.Active id := by
  constructor
  · intro active
    refine ⟨fun item member => ?_, fun other item attests => ?_⟩
    · exact active item.fact.factId item ((attests_record fit).mpr (.inl ⟨member, rfl⟩))
    · exact active other item ((attests_record fit).mpr (.inr attests))
  · rintro ⟨brought, before⟩ other item attests
    rcases (attests_record fit).mp attests with ⟨member, -⟩ | attests
    · exact brought item member
    · exact before other item attests

variable {key : Key}

theorem Coherent.get_prospective (coherent : m.Coherent) (fit : m.Fitting compilation.facts) :
    (m.prospective compilation.facts key).get id = some item ↔
      (m.record source compilation memory).Attests id item ∧ item.fact.key = key := by
  have canonical : Canonical
      ((compilation.facts.filter fun item => item.fact.key = key).map fun item =>
        item.fact.factId) :=
    fit.canonical.sublist (List.Sublist.map _ List.filter_sublist)
  have nodup := nodup_keys canonical
  rw [attests_record fit]
  constructor
  · intro found
    rcases Dict.get_update_eq_some found with brought | before
    · obtain ⟨item', member, same⟩ := List.mem_map.mp brought
      cases same
      obtain ⟨member, key⟩ := List.mem_filter.mp member
      exact ⟨.inl ⟨member, rfl⟩, of_decide_eq_true key⟩
    · obtain ⟨attests, key⟩ := (coherent.keys _ _ _).mp before
      exact ⟨.inr attests, key⟩
  · rintro ⟨⟨member, rfl⟩ | attests, rfl⟩
    · refine Dict.get_update_of_mem nodup (List.mem_map.mpr ⟨item, ?_, rfl⟩)
      exact List.mem_filter.mpr ⟨member, decide_eq_true rfl⟩
    · by_cases brought : id ∈ ((compilation.facts.filter fun other =>
          other.fact.key = item.fact.key).map fun item => (item.fact.factId, item)).map Prod.fst
      · obtain ⟨⟨id', item'⟩, member, rfl⟩ := List.mem_map.mp brought
        obtain ⟨known, member', same⟩ := List.mem_map.mp member
        cases same
        obtain rfl : item = item' :=
          fit.sameAttestation item' (List.mem_filter.mp member').1 item attests
        exact Dict.get_update_of_mem nodup (List.mem_map.mpr ⟨item, member', rfl⟩)
      · exact (Dict.get_update_of_not_mem brought).trans ((coherent.keys _ _ _).mpr ⟨attests, rfl⟩)

theorem Coherent.byKey_record (coherent : m.Coherent) (fit : m.Fitting compilation.facts) :
    ((m.record source compilation memory).byKey key).get id = some item ↔
      (m.record source compilation memory).Attests id item ∧ item.fact.key = key := by
  let touched := ((compilation.facts.map fun item => item.fact.key) ++
    compilation.completenessClaims.map fun claim => claim.key).dedup
  have nodup : ((touched.map fun key => (key, m.prospective compilation.facts key)).map
      Prod.fst).Nodup := by
    rw [List.map_map]
    exact (List.map_id _).symm ▸ List.nodup_dedup _
  by_cases moved : key ∈ touched
  · have held : (m.record source compilation memory).byKey key =
        m.prospective compilation.facts key := by
      show Option.getD ((m.factsByKey.update _).get key) _ = _
      rw [Dict.get_update_of_mem nodup (List.mem_map.mpr ⟨key, moved, rfl⟩)]
      rfl
    rw [held, coherent.get_prospective fit]
  · have held : (m.record source compilation memory).byKey key = m.byKey key := by
      show Option.getD ((m.factsByKey.update _).get key) _ = _
      rw [Dict.get_update_of_not_mem]
      · rfl
      · rw [List.map_map]
        exact (List.map_id _).symm ▸ moved
    rw [held, coherent.keys, attests_record fit]
    constructor
    · rintro ⟨attests, key⟩
      exact ⟨.inr attests, key⟩
    · rintro ⟨⟨member, -⟩ | attests, rfl⟩
      · refine absurd (List.mem_dedup.mpr (List.mem_append_left _ ?_)) moved
        exact List.mem_map.mpr ⟨item, member, rfl⟩
      · exact ⟨attests, rfl⟩

section

variable (coherent : m.Coherent) (fit : m.Fitting compilation.facts)
include coherent fit

variable {item : AttestedSidecarFact} {id : Nat}

theorem Coherent.lineage_of_fresh (member : item ∈ compilation.facts)
    (fresh : ¬ m.Attests item.fact.factId item) :
    (∀ id, id ∈ item.lifecycle.supersedes ↔
      ∃ old, m.Attests id old ∧ old.fact.Kin item.fact.toFactFields ∧ m.Active id) ∧
    ∀ id old, m.Attests id old → old.fact.Kin item.fact.toFactFields → m.Active id →
      old.fact.version < item.fact.version :=
  (coherent.lineage_eq_none fresh).mp (fit.lineage item member)

theorem Coherent.lineage_record (attests : (m.record source compilation memory).Attests id item)
    {old : Nat} (named : old ∈ item.lifecycle.supersedes) :
    ∃ other, m.Attests old other ∧ other.fact.Kin item.fact.toFactFields := by
  by_cases known : m.Attests item.fact.factId item
  · exact coherent.lineage _ item known old named
  · rcases (attests_record fit).mp attests with ⟨member, rfl⟩ | before
    · obtain ⟨other, found, kin, -⟩ :=
        ((coherent.lineage_of_fresh fit member known).1 old).mp named
      exact ⟨other, found, kin⟩
    · exact coherent.lineage id item before old named

theorem Coherent.superseded_record :
    (m.record source compilation memory).supersededBy.get id = none ↔
      (m.record source compilation memory).Active id := by
  have pending : id ∈ (m.pendingSuperseded compilation.facts).map Prod.fst ↔
      ∃ item ∈ compilation.facts, ¬ m.Attests item.fact.factId item ∧
        id ∈ item.lifecycle.supersedes := by
    simp only [pendingSuperseded, List.mem_map, List.mem_flatMap, attested, decide_eq_true_eq]
    constructor
    · rintro ⟨e, ⟨item, member, within⟩, rfl⟩
      split at within
      · cases within
      · rename_i fresh
        obtain ⟨old, named, rfl⟩ := List.mem_map.mp within
        refine ⟨item, member, fresh, ?_⟩
        exact ((coherent.lineage_of_fresh fit member fresh).1 old).mpr
          (coherent.mem_previous.mp named)
    · rintro ⟨item, member, fresh, named⟩
      refine ⟨(id, item.fact.factId), ⟨item, member, ?_⟩, rfl⟩
      rw [if_neg (show ¬ m.attestations.get item.fact.factId = some item from fresh)]
      refine List.mem_map.mpr ⟨id, coherent.mem_previous.mpr ?_, rfl⟩
      exact ((coherent.lineage_of_fresh fit member fresh).1 id).mp named
  rw [show (m.record source compilation memory).supersededBy =
    m.supersededBy.update (m.pendingSuperseded compilation.facts) from rfl,
    Dict.get_update_eq_none, pending, coherent.superseded, active_record fit]
  constructor
  · rintro ⟨active, unnamed⟩
    refine ⟨fun item member named => ?_, active⟩
    by_cases known : m.Attests item.fact.factId item
    · exact active _ item known named
    · exact unnamed ⟨item, member, known, named⟩
  · rintro ⟨unnamed, active⟩
    refine ⟨active, ?_⟩
    rintro ⟨item, member, -, named⟩
    exact unnamed item member named

theorem Coherent.chain_record (attests : (m.record source compilation memory).Attests id item) :
    ∃ top last, (m.record source compilation memory).Attests top last ∧
      (m.record source compilation memory).Active top ∧
      last.fact.Kin item.fact.toFactFields ∧
      ∀ other old, (m.record source compilation memory).Attests other old →
        old.fact.Kin item.fact.toFactFields → other ≠ top →
        old.fact.version < last.fact.version ∧
          ¬ (m.record source compilation memory).Active other := by
  by_cases renewed : ∃ n ∈ compilation.facts, ¬ m.Attests n.fact.factId n ∧
      n.fact.Kin item.fact.toFactFields
  · -- The orbit has a new fact, which is then its last one.
    obtain ⟨n, member, fresh, kin⟩ := renewed
    obtain ⟨names, newer⟩ := coherent.lineage_of_fresh fit member fresh
    have unseen : ¬ ∃ old, m.Attests n.fact.factId old := by
      rintro ⟨old, known⟩
      rw [fit.sameAttestation n member old known] at known
      exact fresh known
    refine ⟨n.fact.factId, n, (attests_record fit).mpr (.inl ⟨member, rfl⟩), ?_, kin, ?_⟩
    · intro other namer attests' named
      obtain ⟨old, known, -⟩ := coherent.lineage_record fit attests' named
      exact unseen ⟨old, known⟩
    · intro other old attests' kin' different
      rcases (attests_record fit).mp attests' with ⟨member', rfl⟩ | before
      · have same : old = n := by
          have pair : (old.fact.key, old.fact.orbit) = (n.fact.key, n.fact.orbit) := by
            rw [Prod.mk.injEq]
            exact kin'.trans kin.symm
          exact List.inj_on_of_nodup_map fit.oneOrbit member' member pair
        exact absurd (same ▸ rfl) different
      · obtain ⟨top, last, known, active, kin'', rising⟩ := coherent.chain other old before
        have below := newer top last known (kin''.trans (kin'.trans kin.symm)) active
        by_cases same : other = top
        · subst same
          rw [Attests.unique before known]
          refine ⟨below, fun still => ?_⟩
          have named := (names other).mpr ⟨last, known, kin''.trans (kin'.trans kin.symm), active⟩
          exact ((active_record fit).mp still).1 n member named
        · obtain ⟨lower, retired⟩ := rising other old before ⟨rfl, rfl⟩ same
          exact ⟨Nat.lt_trans lower below, fun still => retired ((active_record fit).mp still).2⟩
  · -- Nothing new in the orbit: its last fact is the one before.
    have settled : ∀ other old, (m.record source compilation memory).Attests other old →
        old.fact.Kin item.fact.toFactFields → m.Attests other old := by
      intro other old attests' kin
      rcases (attests_record fit).mp attests' with ⟨member, rfl⟩ | before
      · by_contra fresh
        exact renewed ⟨old, member, fresh, kin⟩
      · exact before
    obtain ⟨top, last, known, active, kin, rising⟩ :=
      coherent.chain id item (settled id item attests ⟨rfl, rfl⟩)
    refine ⟨top, last, (attests_record fit).mpr (.inr known), ?_, kin, ?_⟩
    · refine (active_record fit).mpr ⟨fun n member named => ?_, active⟩
      by_cases fresh : m.Attests n.fact.factId n
      · exact active _ n fresh named
      · obtain ⟨other, known', kin', -⟩ :=
          ((coherent.lineage_of_fresh fit member fresh).1 top).mp named
        rw [Attests.unique known' known] at kin'
        exact renewed ⟨n, member, fresh, kin'.symm.trans kin⟩
    · intro other old attests' kin' different
      obtain ⟨lower, retired⟩ := rising other old (settled other old attests' kin') kin' different
      exact ⟨lower, fun still => retired ((active_record fit).mp still).2⟩

theorem Coherent.record (grown : m.memory.Grown source
    (compilation.facts.map fun item => item.fact) memory) :
    (m.record source compilation memory).Coherent where
  ids := by
    intro id item attests
    rcases (attests_record fit).mp attests with ⟨-, same⟩ | before
    · exact same
    · exact coherent.ids id item before
  keys _ _ _ := coherent.byKey_record fit
  superseded _ := coherent.superseded_record fit
  facts := by
    intro id f
    show memory.facts.get id = some f ↔ _
    rw [grown.facts, coherent.facts]
    simp only [attests_record fit, List.mem_map]
    constructor
    · rintro (⟨⟨item, member, rfl⟩, same⟩ | ⟨item, before, rfl⟩)
      · exact ⟨item, .inl ⟨member, same⟩, rfl⟩
      · exact ⟨item, .inr before, rfl⟩
    · rintro ⟨item, ⟨member, same⟩ | before, rfl⟩
      · exact .inl ⟨⟨item, member, rfl⟩, same⟩
      · exact .inr ⟨item, before, rfl⟩
  scope := grown.scope.trans coherent.scope
  sameScope := by
    intro id item attests
    rcases (attests_record fit).mp attests with ⟨member, -⟩ | before
    · exact fit.sameScope item member
    · exact coherent.sameScope id item before
  causes := by
    have known {cause : Nat} : (∃ f, memory.facts.get cause = some f) →
        ∃ other, (m.record source compilation memory).Attests cause other := by
      rintro ⟨f, found⟩
      rcases (grown.facts cause f).mp found with ⟨member, rfl⟩ | before
      · obtain ⟨item, brought, rfl⟩ := List.mem_map.mp member
        exact ⟨item, (attests_record fit).mpr (.inl ⟨brought, rfl⟩)⟩
      · obtain ⟨item, before, -⟩ := (coherent.facts _ _).mp before
        exact ⟨item, (attests_record fit).mpr (.inr before)⟩
    intro id item attests cause named
    rcases (attests_record fit).mp attests with ⟨member, rfl⟩ | before
    · cases found : m.memory.facts.get item.fact.factId with
      | none =>
        exact known (grown.causes item.fact (List.mem_map.mpr ⟨item, member, rfl⟩) found cause
          named)
      | some f =>
        obtain ⟨item', before, -⟩ := (coherent.facts _ _).mp found
        have same : item' = item := fit.sameAttestation item member item' before
        rw [same] at before
        obtain ⟨other, found'⟩ := coherent.causes _ item before cause named
        exact ⟨other, (attests_record fit).mpr (.inr found')⟩
    · obtain ⟨other, found⟩ := coherent.causes id item before cause named
      exact ⟨other, (attests_record fit).mpr (.inr found)⟩
  lineage := by
    intro id item attests old named
    obtain ⟨other, found, kin⟩ := coherent.lineage_record fit attests named
    exact ⟨other, (attests_record fit).mpr (.inr found), kin⟩
  chain _ _ attests := coherent.chain_record fit attests

end

end AuthorizedSidecarMemory

section

variable {c : Crypto} {g : Registry} {m : AuthorizedSidecarMemory} {r : SidecarRecord}
  {authority : SidecarAuthority} {source : CausalSourceEnvelope}
  {memory : StandaloneCausalMemory}

theorem Takes.grown (taken : Takes c g m r authority source memory) :
    m.memory.Grown source (r.facts.map fun item => item.fact) memory := by
  obtain ⟨state, published⟩ := taken.published
  cases published with
  | facts some_fact ingested outcome good =>
    exact StandaloneCausalMemory.grown_of_ingest ingested (outcome ▸ good) taken.admitted.sealing
  | claims no_fact sameSource outcome =>
    have none : r.facts = [] := no_fact
    simp only [none, List.map_nil]
    exact ⟨rfl, rfl, fun id f => by simp, nofun, fun _ _ found => .inr found, nofun,
      fun id known found => ⟨known, found, rfl⟩⟩

theorem coherent_of_empty (attestations : m.attestations = .empty)
    (factsByKey : m.factsByKey = .empty) (supersededBy : m.supersededBy = .empty)
    (facts : m.memory.facts = .empty) (scope : m.memory.scope = m.scope) : m.Coherent := by
  have none (id : Nat) (item : AttestedSidecarFact) : ¬ m.Attests id item := by
    simp [AuthorizedSidecarMemory.Attests, attestations]
  refine ⟨?_, ?_, ?_, ?_, scope, ?_, ?_, ?_, ?_⟩
  · exact fun id item attests => absurd attests (none id item)
  · intro key id item
    simp [AuthorizedSidecarMemory.byKey, factsByKey, none]
  · intro id
    simp [supersededBy, AuthorizedSidecarMemory.Active, none]
  · intro id f
    simp [facts, none]
  · exact fun id item attests => absurd attests (none id item)
  · exact fun id item attests => absurd attests (none id item)
  · exact fun id item attests => absurd attests (none id item)
  · exact fun id item attests => absurd attests (none id item)

theorem coherent_of_make
    (made : AuthorizedSidecarMemory.make c g.scope g.authorities .default true = .ok m) :
    m.Coherent := by
  obtain rfl := AuthorizedSidecarMemory.eq_of_make made
  exact coherent_of_empty rfl rfl rfl rfl rfl

theorem Replayed.coherent {rs : List SidecarRecord} (replayed : Replayed c g rs m) :
    m.Coherent := by
  induction replayed with
  | start made => exact coherent_of_make made
  | next before taken ih => exact ih.record taken.fit.fitting taken.grown

end

end ProofRay.Sidecar
