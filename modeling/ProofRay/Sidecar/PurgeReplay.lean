/- A ledger without some of its facts replays: beside the memory of the whole ledger stands, record
   by record, the memory of what stays of it. -/

import ProofRay.Sidecar.Population
import ProofRay.Sidecar.Redaction

namespace ProofRay.Sidecar

open Engine (Crypto)
open Lib (Dict)
open Lib.Guard
open AuthorizedSidecarMemory (active_record admits attested attests_record eq_of_make)
open CausalSourceEnvelope (sealed sealed_eq_ok)

def Unnamed (selected : List Nat) (m : AuthorizedSidecarMemory) : Prop :=
  ∀ id item, m.Attests id item → id ∉ selected → ∀ s ∈ selected,
    s ∉ item.fact.causes ∧ s ∉ item.lifecycle.supersedes

def Closed (selected : List Nat) (m : AuthorizedSidecarMemory) : Prop :=
  ∀ id item, m.Attests id item → id ∈ selected → ∀ top last, m.Attests top last →
    last.fact.Kin item.fact.toFactFields → m.Active top → top ∈ selected

/-- Two records are redacted alike: to one text, in which a fact of both stands at one place. -/
def Agree (selected : List Nat) (a b : SidecarRecord) : Prop :=
  a.redactedText selected = b.redactedText selected ∧
    ∀ x ∈ a.redactedLayout selected, ∀ y ∈ b.redactedLayout selected,
      x.1.fact.factId = y.1.fact.factId → x.2 = y.2

/-- Two records of one source of which one loses a fact: one that stays loses a fact itself, and
two that stay are redacted alike. -/
def Apart (selected : List Nat) (a b : SidecarRecord) : Prop :=
  a.sourceId = b.sourceId → a.Loses selected ∨ b.Loses selected →
    (a.Stays selected → a.Loses selected) ∧ (b.Stays selected → b.Loses selected) ∧
    (a.Stays selected → b.Stays selected → Agree selected a b)

variable {a b : SidecarRecord}

theorem Agree.symm {selected : List Nat} (agree : Agree selected a b) : Agree selected b a :=
  ⟨agree.1.symm, fun y inB x inA same => (agree.2 x inA y inB same.symm).symm⟩

theorem Apart.symm {selected : List Nat} (apart : Apart selected a b) : Apart selected b a := by
  intro same lost
  obtain ⟨first, second, agree⟩ := apart same.symm lost.symm
  exact ⟨second, first, fun stays stays' => (agree stays' stays).symm⟩

section

variable {c : Crypto} {g : Registry} {m : AuthorizedSidecarMemory} {r : SidecarRecord}
  {authority : SidecarAuthority} {source : CausalSourceEnvelope}
  {memory : StandaloneCausalMemory} {selected : List Nat}

theorem Unnamed.of_record (fit : m.Fitting r.compilation.facts)
    (unnamed : Unnamed selected (m.record source r.compilation memory)) : Unnamed selected m :=
  fun id item attests =>
    unnamed id item ((attests_record fit).mpr (.inr attests))

theorem Closed.record (coherent : m.Coherent) (fit : m.Fitting r.compilation.facts)
    (unnamed : Unnamed selected (m.record source r.compilation memory))
    (closed : Closed selected m) : Closed selected (m.record source r.compilation memory) := by
  intro id item attests isSelected top last atTop kin active
  have brought {other : Nat} {old : AttestedSidecarFact}
      (attests : (m.record source r.compilation memory).Attests other old)
      (fresh : ¬ m.Attests other old) :
      old ∈ r.compilation.facts ∧ old.fact.factId = other ∧ ¬ m.Attests old.fact.factId old := by
    rcases (attests_record fit).mp attests with ⟨member, rfl⟩ | before
    · exact ⟨member, rfl, fresh⟩
    · exact absurd before fresh
  have before := ((active_record fit).mp active).2
  by_contra stays
  by_cases known : m.Attests top last
  · by_cases old : m.Attests id item
    · exact stays (closed id item old isSelected top last known kin before)
    · -- The selected fact is new: it supersedes the one that is active.
      obtain ⟨member, rfl, fresh⟩ := brought attests old
      have named := ((coherent.lineage_of_fresh fit member fresh).1 top).mpr
        ⟨last, known, kin, before⟩
      exact active _ item attests named
  · obtain ⟨member, rfl, fresh⟩ := brought atTop known
    obtain ⟨names, -⟩ := coherent.lineage_of_fresh fit member fresh
    by_cases old : m.Attests id item
    · -- The fact that stays is new: it supersedes the last one of the orbit, which is selected.
      obtain ⟨end', final, known', active', kin', -⟩ := coherent.chain id item old
      have gone := closed id item old isSelected end' final known' kin' active'
      have named := (names end').mpr ⟨final, known', kin'.trans kin.symm, active'⟩
      exact (unnamed _ last atTop stays end' gone).2 named
    · obtain ⟨member', rfl, -⟩ := brought attests old
      have pair : (last.fact.key, last.fact.orbit) = (item.fact.key, item.fact.orbit) := by
        rw [Prod.mk.injEq]
        exact kin
      have same : last = item := List.inj_on_of_nodup_map fit.oneOrbit member member' pair
      exact stays (same ▸ isSelected)

theorem closed_of_replayed {rs : List SidecarRecord} (replayed : Replayed c g rs m)
    (unnamed : Unnamed selected m) : Closed selected m := by
  induction replayed with
  | start made =>
    obtain rfl := eq_of_make made
    intro id item attests
    cases attests
  | next before taken ih =>
    have fit := taken.fit.fitting
    exact Closed.record before.coherent fit unnamed (ih (unnamed.of_record fit))

end

def Origin (c : Crypto) (selected : List Nat) (rs : List SidecarRecord)
    (before : Dict String CausalSourceEnvelope) (id : String) (known' : CausalSourceEnvelope) :
    Prop :=
  ∃ q ∈ rs, q.Stays selected ∧ q.sourceId = id ∧
    ((q.Loses selected ∧ known'.sha256 = hexSha256 c (encode (q.redactedText selected))) ∨
      (¬ q.Loses selected ∧ ∃ known, before.get id = some known ∧ known.sha256 = known'.sha256))

theorem Origin.append {c : Crypto} {selected : List Nat} {rs : List SidecarRecord}
    {r : SidecarRecord} {before after : Dict String CausalSourceEnvelope} {id : String}
    {known' : CausalSourceEnvelope} (origin : Origin c selected rs before id known')
    (onward : (∃ q ∈ rs, q.Stays selected ∧ q.sourceId = id ∧ ¬ q.Loses selected) →
      ∀ known, before.get id = some known →
        ∃ known'', after.get id = some known'' ∧ known''.sha256 = known.sha256) :
    Origin c selected (rs ++ [r]) after id known' := by
  obtain ⟨q, member, stays, here, rest⟩ := origin
  refine ⟨q, List.mem_append_left [r] member, stays, here, rest.imp_right ?_⟩
  rintro ⟨whole, known, held, sha⟩
  obtain ⟨known'', held', sha'⟩ := onward ⟨q, member, stays, here, whole⟩ known held
  exact ⟨whole, known'', held', sha'.trans sha⟩

/-- Beside a memory of some records, the memory of what stays of them. -/
structure Shadow (c : Crypto) (selected : List Nat) (rs : List SidecarRecord)
    (m m' : AuthorizedSidecarMemory) : Prop where
  scope : m'.scope = m.scope
  authorities : m'.authorities = m.authorities
  limits : m'.limits = m.limits
  deferred : m'.memory.deferPublication = true
  gone : ∀ id item', m'.Attests id item' → id ∉ selected ∧ ∃ item, m.Attests id item ∧
    item.Like item' ∧ ∃ q ∈ rs, q.Stays selected ∧ q.sourceId = item'.fact.sourceId ∧
      ((q.Loses selected ∧ q.Places c selected item') ∨ (¬ q.Loses selected ∧ item' = item))
  kept : ∀ id item, m.Attests id item → id ∉ selected → ∃ item', m'.Attests id item'
  coreSources : ∀ id known', m'.memory.sources.get id = some known' →
    Origin c selected rs m.memory.sources id known'
  sources : ∀ id known', m'.sources.get id = some known' → Origin c selected rs m.sources id known'

section

variable {c : Crypto} {selected : List Nat} {rs : List SidecarRecord}
  {m m' : AuthorizedSidecarMemory}

variable {id : Nat}

variable {item : AttestedSidecarFact}

theorem Shadow.image (shadow : Shadow c selected rs m m') (attests : m.Attests id item)
    (stays : id ∉ selected) : ∃ item', m'.Attests id item' ∧ item.Like item' := by
  obtain ⟨item', attests'⟩ := shadow.kept id item attests stays
  obtain ⟨-, origin, known, like, -⟩ := shadow.gone id item' attests'
  exact ⟨item', attests', AuthorizedSidecarMemory.Attests.unique attests known ▸ like⟩

theorem Shadow.active (shadow : Shadow c selected rs m m') (active : m.Active id) :
    m'.Active id := by
  intro other item' attests' named
  obtain ⟨-, item, attests, like, -⟩ := shadow.gone other item' attests'
  exact active other item attests (like.lifecycle ▸ named)

theorem Shadow.active_or (shadow : Shadow c selected rs m m') (coherent : m.Coherent)
    (closed : Closed selected m) (attests : m.Attests id item) (active' : m'.Active id) :
    m.Active id ∨
      ∃ top last, m.Attests top last ∧ last.fact.Kin item.fact.toFactFields ∧ m.Active top ∧
        top ∈ selected := by
  by_contra neither
  rw [not_or] at neither
  obtain ⟨inactive, settled⟩ := neither
  apply inactive
  intro other namer attests' named
  by_cases stays : other ∈ selected
  · obtain ⟨known, found, kin⟩ := coherent.lineage other namer attests' id named
    obtain rfl := AuthorizedSidecarMemory.Attests.unique attests found
    obtain ⟨top, last, atTop, active, kin', -⟩ := coherent.chain other namer attests'
    exact settled ⟨top, last, atTop, kin'.trans kin.symm, active,
      closed other namer attests' stays top last atTop kin' active⟩
  · obtain ⟨image, held, like⟩ := shadow.image attests' stays
    exact active' other image held (like.lifecycle.symm ▸ named)

end

theorem StandaloneCausalMemory.ingest_of_acceptable {c : Crypto} {m : StandaloneCausalMemory}
    {δ : Type} {batch : CausalAdapterBatch δ} {source : CausalSourceEnvelope}
    {proposed : List TypedCausalFact} (deferred : m.deferPublication = true)
    (scope : batch.scope = m.scope) (sealing : sealed c batch.sourceId batch.content = .ok source)
    (fit : m.Acceptable c source proposed) (causes : m.missing proposed = []) :
    ∃ outcome m', m.ingest c batch proposed = .ok (outcome, m') ∧ outcome.state.Taken := by
  rw [ingest_eq scope sealing fit]
  by_cases known : m.novel proposed = []
  · rw [if_pos known]
    exact ⟨_, m, rfl, .inr rfl⟩
  · rw [if_neg known, if_pos causes]
    simp only [commit, reindex, if_pos deferred]
    exact ⟨_, _, rfl, .inl rfl⟩

section

variable {c : Crypto} {g : Registry} {selected : List Nat} {rs : List SidecarRecord}
  {m m' : AuthorizedSidecarMemory} {r r' : SidecarRecord} {authority : SidecarAuthority}
  {source source' : CausalSourceEnvelope} {memory memory' : StandaloneCausalMemory}

theorem alike_of_apart (apart : ∀ q ∈ rs, Apart selected q r) (stays : r.Stays selected)
    {q : SidecarRecord} (member : q ∈ rs) (stays' : q.Stays selected)
    (same : q.sourceId = r.sourceId) : (¬ r.Loses selected ∧ ¬ q.Loses selected) ∨
      (r.Loses selected ∧ q.Loses selected ∧ Agree selected q r) := by
  by_cases lost : q.Loses selected ∨ r.Loses selected
  · obtain ⟨first, second, agree⟩ := apart q member same lost
    exact .inr ⟨second stays, first stays', agree stays' stays⟩
  · rw [not_or] at lost
    exact .inl lost.symm

theorem Origin.sha256_eq {before : Dict String CausalSourceEnvelope}
    {known' : CausalSourceEnvelope} (origin : Origin c selected rs before r.sourceId known')
    (apart : ∀ q ∈ rs, Apart selected q r) (stays : r.Stays selected)
    (remainder : Remainder c selected r r' authority source') :
    known'.sha256 = source'.sha256 ∨ (¬ r.Loses selected ∧
      ∃ known, before.get r.sourceId = some known ∧ known.sha256 = known'.sha256) := by
  obtain ⟨q, member, stays', here, rest⟩ := origin
  rcases alike_of_apart apart stays member stays' here with ⟨whole, whole'⟩ | ⟨loses, loses', agree⟩
  · exact .inr ⟨whole, (rest.resolve_left fun lost => whole' lost.1).2⟩
  · have sha256 := (rest.resolve_right fun known => known.1 loses').2
    refine .inl ?_
    rw [sha256, remainder.sha256_eq loses, agree.1]

variable (taken : Takes c g m r authority source memory) (coherent : m.Coherent)
  (coherent' : m'.Coherent) (shadow : Shadow c selected rs m m')
  (apart : ∀ q ∈ rs, Apart selected q r) (stays : r.Stays selected)
  (remainder : Remainder c selected r r' authority source')
include taken shadow apart stays remainder

theorem Remainder.sameAttestation : ∀ item' ∈ r'.facts,
    ∀ known' ∈ m'.attestations.get item'.fact.factId, known' = item' := by
  intro item' member known' held
  obtain ⟨item, inRecord, unselected, like⟩ := remainder.factsFrom item' member
  obtain ⟨-, known, attests, like', q, inLedger, stays', origin, kept⟩ :=
    shadow.gone _ known' held
  have sameId := like'.factId
  rw [like.factId] at attests
  obtain rfl : known = item := taken.fit.sameAttestation item inRecord known attests
  have fromSource : known.fact.sourceId = r.sourceId := by
    rw [(taken.fit.fromSource known inRecord).2.1, ((sealed_eq_ok c).mp taken.admitted.sealing).2]
    rfl
  rcases alike_of_apart apart stays inLedger stays'
    (origin.trans (like'.sourceId.trans fromSource)) with ⟨whole, whole'⟩ |
    ⟨loses, loses', text, places⟩
  · have here : item' ∈ r.facts := (remainder.whole whole).1 ▸ member
    have same : known' = known := (kept.resolve_left fun lost => whole' lost.1).2
    have distinct : (r.facts.map fun item => item.fact.factId).Nodup :=
      taken.fit.canonical.imp fun h => Nat.ne_of_lt h
    rw [same]
    exact List.inj_on_of_nodup_map distinct inRecord here like.factId.symm
  · obtain ⟨isSealed, sha256, x, inQ, isX, span⟩ :=
      (kept.resolve_right fun kept => kept.1 loses').2
    obtain ⟨isSealed', sha256', y, inR, isY, span'⟩ := (remainder.redacted loses).2.2 item' member
    refine like.determined like' isSealed' isSealed ?_ ?_
    · rw [sha256, sha256', text]
    · rw [← span, ← span']
      exact places x inQ y inR (by rw [isX, isY, like.factId, sameId])

theorem Remainder.fresh {item item' : AttestedSidecarFact} (member : item' ∈ r'.facts)
    (like : item.Like item') (fresh : ¬ m'.Attests item'.fact.factId item') :
    ¬ ∃ known, m.Attests item.fact.factId known := by
  rintro ⟨known, attests⟩
  obtain ⟨origin, -, unselected, like'⟩ := remainder.factsFrom item' member
  rw [← like'.factId, like.factId] at unselected
  obtain ⟨known', attests'⟩ := shadow.kept _ known attests unselected
  rw [← like.factId] at attests'
  have same := remainder.sameAttestation taken shadow apart stays item' member known' attests'
  exact fresh (same ▸ attests')

include coherent coherent' in
theorem Remainder.fitting (closed : Closed selected m)
    (unnamed : Unnamed selected (m.record source r.compilation memory)) :
    m'.Fitting r'.compilation.facts where
  canonical := remainder.canonical
  sameScope := by
    intro item' member
    obtain ⟨item, inRecord, -, like⟩ := remainder.factsFrom item' member
    rw [like.scope, shadow.scope]
    exact (taken.fit.fromSource item inRecord).1
  sameAttestation := remainder.sameAttestation taken shadow apart stays
  oneOrbit := by
    have nodup : r'.facts.Nodup :=
      List.Nodup.of_map _ (remainder.canonical.imp fun h => Nat.ne_of_lt h)
    refine nodup.map_on ?_
    intro a inA b inB same
    obtain ⟨a₀, inRecord, -, like⟩ := remainder.factsFrom a inA
    obtain ⟨b₀, inRecord', -, like'⟩ := remainder.factsFrom b inB
    rw [like.key, like.orbit, like'.key, like'.orbit] at same
    have pair : a₀ = b₀ := List.inj_on_of_nodup_map taken.fit.oneOrbit inRecord inRecord' same
    refine List.inj_on_of_nodup_map (remainder.canonical.imp fun h => Nat.ne_of_lt h) inA inB ?_
    rw [like.factId, like'.factId, pair]
  lineage := by
    intro item' member
    by_cases known : m'.Attests item'.fact.factId item'
    · rw [AuthorizedSidecarMemory.lineage, if_pos]
      simp only [attested, decide_eq_true_eq]
      exact known
    · obtain ⟨item, inRecord, unselected, like⟩ := remainder.factsFrom item' member
      have unseen := remainder.fresh taken shadow apart stays member like known
      have fit := taken.fit.fitting
      obtain ⟨names, newer⟩ := coherent.lineage_of_fresh fit inRecord fun held =>
        unseen ⟨item, held⟩
      have attests : (m.record source r.compilation memory).Attests item.fact.factId item :=
        (attests_record fit).mpr (.inl ⟨inRecord, rfl⟩)
      have kinship {old old' : AttestedSidecarFact} (likeOld : old.Like old') :
          old'.fact.Kin item'.fact.toFactFields ↔ old.fact.Kin item.fact.toFactFields := by
        simp only [FactFields.Kin, like.key, like.orbit, likeOld.key, likeOld.orbit]
      -- What is active beside what stays was active before: its orbit holds nothing selected.
      have still {id : Nat} {old old' : AttestedSidecarFact} (held : m.Attests id old)
          (likeOld : old.Like old') (kin : old'.fact.Kin item'.fact.toFactFields)
          (active' : m'.Active id) : m.Active id := by
        rcases shadow.active_or coherent closed held active' with active | ⟨top, last, atTop, kin',
          active, isSelected⟩
        · exact active
        · have named := (names top).mpr
            ⟨last, atTop, kin'.trans ((kinship likeOld).mp kin), active⟩
          exact absurd named (unnamed _ item attests unselected top isSelected).2
      refine (coherent'.lineage_eq_none known).mpr ⟨fun id => ?_, ?_⟩
      · rw [like.lifecycle, names]
        constructor
        · rintro ⟨old, held, kin, active⟩
          have outside : id ∉ selected := by
            intro isSelected
            exact (unnamed _ item attests unselected id isSelected).2
              ((names id).mpr ⟨old, held, kin, active⟩)
          obtain ⟨old', held', likeOld⟩ := shadow.image held outside
          exact ⟨old', held', (kinship likeOld).mpr kin, shadow.active active⟩
        · rintro ⟨old', held', kin, active'⟩
          obtain ⟨-, old, held, likeOld, -⟩ := shadow.gone id old' held'
          exact ⟨old, held, (kinship likeOld).mp kin, still held likeOld kin active'⟩
      · intro id old' held' kin active'
        obtain ⟨-, old, held, likeOld, -⟩ := shadow.gone id old' held'
        rw [likeOld.version, like.version]
        exact newer id old held ((kinship likeOld).mp kin) (still held likeOld kin active')

omit shadow apart stays in
theorem Remainder.source_eq (whole : ¬ r.Loses selected) : source' = source := by
  have sealing : sealed c r.sourceId r.content = .ok source :=
    taken.admitted.sealing
  have sealing' := remainder.sealing
  rw [remainder.same.2.2.2, (remainder.whole whole).2, sealing] at sealing'
  exact (Except.ok.inj sealing').symm

include coherent coherent' in
theorem Shadow.record (fit' : m'.Fitting r'.compilation.facts)
    (grown' : m'.memory.Grown source' (r'.facts.map fun item => item.fact) memory') :
    Shadow c selected (rs ++ [r]) (m.record source r.compilation memory)
      (m'.record source' r'.compilation memory') where
  scope := shadow.scope
  authorities := shadow.authorities
  limits := shadow.limits
  deferred := grown'.deferred.trans shadow.deferred
  gone := by
    have fit := taken.fit.fitting
    intro id item' attests'
    rcases (attests_record fit').mp attests' with ⟨member, rfl⟩ | before
    · obtain ⟨item, inRecord, unselected, like⟩ := remainder.factsFrom item' member
      have fromSource : r.sourceId = item'.fact.sourceId := by
        rw [like.sourceId, (taken.fit.fromSource item inRecord).2.1,
          ((sealed_eq_ok c).mp taken.admitted.sealing).2]
        rfl
      have here : r ∈ rs ++ [r] := List.mem_append_right rs List.mem_cons_self
      refine ⟨like.factId ▸ unselected, ?_⟩
      by_cases loses : r.Loses selected
      · exact ⟨item, (attests_record fit).mpr
          (.inl ⟨inRecord, like.factId.symm⟩), like, r, here, stays, fromSource,
          .inl ⟨loses, (remainder.redacted loses).2.2 item' member⟩⟩
      · have inRecord' : item' ∈ r.facts := (remainder.whole loses).1 ▸ member
        exact ⟨item', (attests_record fit).mpr (.inl ⟨inRecord', rfl⟩),
          .refl item', r, here, stays, fromSource, .inr ⟨loses, rfl⟩⟩
    · obtain ⟨unselected, item, attests, like, q, member, rest⟩ := shadow.gone id item' before
      exact ⟨unselected, item, (attests_record fit).mpr (.inr attests),
        like, q, List.mem_append_left [r] member, rest⟩
  kept := by
    intro id item attests unselected
    rcases (attests_record taken.fit.fitting).mp attests with
      ⟨member, rfl⟩ | before
    · obtain ⟨item', member', like⟩ := remainder.factsKept item member unselected
      exact ⟨item', (attests_record fit').mpr (.inl ⟨member', like.factId⟩)⟩
    · obtain ⟨item', attests'⟩ := shadow.kept id item before unselected
      exact ⟨item', (attests_record fit').mpr (.inr attests')⟩
  coreSources := by
    intro id known' found
    rcases grown'.sources id known' found with ⟨rfl, rfl, f, member, fresh⟩ | before
    · refine ⟨r, List.mem_append_right rs List.mem_cons_self, stays, ?_, ?_⟩
      · rw [((sealed_eq_ok c).mp remainder.sealing).2]
        exact remainder.same.2.2.2.symm
      · by_cases loses : r.Loses selected
        · exact .inl ⟨loses, remainder.sha256_eq loses⟩
        · obtain ⟨item', inRecord', rfl⟩ := List.mem_map.mp member
          obtain ⟨item, inRecord, -, like⟩ := remainder.factsFrom item' inRecord'
          have unseen' : ¬ m'.Attests item'.fact.factId item' := by
            intro attests'
            have held := (coherent'.facts _ _).mpr ⟨item', attests', rfl⟩
            rw [fresh] at held
            cases held
          have unseen := remainder.fresh taken shadow apart stays inRecord' like unseen'
          have absent : m.memory.facts.get item.fact.factId = none := by
            cases held : m.memory.facts.get item.fact.factId with
            | none => rfl
            | some f =>
              obtain ⟨known, attests, -⟩ := (coherent.facts _ _).mp held
              exact absurd ⟨known, attests⟩ unseen
          have same := remainder.source_eq taken loses
          exact .inr ⟨loses, source, same ▸ taken.grown.sourceOf item.fact
            (List.mem_map.mpr ⟨item, inRecord, rfl⟩) absent, by rw [same]⟩
    · exact (shadow.coreSources id known' before).append fun _ => taken.grown.sameSource id
  sources := by
    have identity : source.sourceId = r.sourceId := by
      rw [((sealed_eq_ok c).mp taken.admitted.sealing).2]
      rfl
    have identity' : source'.sourceId = r.sourceId := by
      rw [((sealed_eq_ok c).mp remainder.sealing).2]
      exact remainder.same.2.2.2
    intro id known' found
    have found : (m'.sources.set source'.sourceId source').get id = some known' := found
    rw [Dict.get_set, identity'] at found
    split at found
    · rename_i here
      obtain rfl := Option.some.inj found
      refine ⟨r, List.mem_append_right rs List.mem_cons_self, stays, here, ?_⟩
      by_cases loses : r.Loses selected
      · exact .inl ⟨loses, remainder.sha256_eq loses⟩
      · refine .inr ⟨loses, source, ?_, by rw [remainder.source_eq taken loses]⟩
        show (m.sources.set source.sourceId source).get id = some source
        rw [Dict.get_set, identity, if_pos here]
    · rename_i elsewhere
      refine (shadow.sources id known' found).append fun _ known held => ⟨known, ?_, rfl⟩
      show (m.sources.set source.sourceId source).get id = some known
      rw [Dict.get_set, identity, if_neg elsewhere]
      exact held

include coherent coherent' in
theorem Remainder.ingest (unnamed : Unnamed selected (m.record source r.compilation memory))
    (some_fact : r'.facts ≠ []) : ∃ outcome memory',
      m'.memory.ingest c (r'.batch g.scope) (r'.facts.map fun item => item.fact) =
        .ok (outcome, memory') ∧ outcome.state.Taken := by
  have fit := taken.fit.fitting
  have identity' : source'.sourceId = r.sourceId := by
    rw [((sealed_eq_ok c).mp remainder.sealing).2]
    exact remainder.same.2.2.2
  have cited : ∀ item' ∈ r'.facts, verifyMicrocitation c item'.fact.toFactFields source' = true :=
    fun item' member =>
      ((AttestedSidecarFact.verify_eq_true c).mp (remainder.verified item' member)).2.2
  have scope : m'.memory.scope = m.scope := coherent'.scope.trans shadow.scope
  have acceptable : m'.memory.Acceptable c source' (r'.facts.map fun item => item.fact) := by
    refine ⟨by simpa using some_fact, ?_, ?_, ?_, ?_, ?_⟩
    · have canonical := remainder.canonical
      rwa [List.map_map]
    · intro f member
      obtain ⟨item', inRecord', rfl⟩ := List.mem_map.mp member
      obtain ⟨item, inRecord, -, like⟩ := remainder.factsFrom item' inRecord'
      have quoted := cited item' inRecord'
      simp only [verifyMicrocitation, Bool.and_eq_true, decide_eq_true_eq] at quoted
      refine ⟨?_, quoted.1.1.1.2, quoted.1.1.2⟩
      rw [like.scope, scope]
      exact (taken.fit.fromSource item inRecord).1
    · intro f member
      obtain ⟨item', inRecord', rfl⟩ := List.mem_map.mp member
      exact cited item' inRecord'
    · intro known' held
      have origin := shadow.coreSources _ known' held
      rw [identity'] at origin
      rcases origin.sha256_eq apart stays remainder with redacted | ⟨whole, known, held', sha⟩
      · exact redacted
      have same := remainder.source_eq taken whole
      have facts : r.facts ≠ [] := (remainder.whole whole).1 ▸ some_fact
      rw [← sha, same]
      rw [← identity', same] at held'
      obtain ⟨state, published⟩ := taken.published
      cases published with
      | facts _ ingested outcome good =>
        obtain ⟨-, source'', sealing, fit', -⟩ :=
          StandaloneCausalMemory.of_ingest ingested (outcome ▸ good)
        obtain rfl : source'' = source :=
          Except.ok.inj (sealing.symm.trans taken.admitted.sealing)
        exact fit'.sameSource known held'
      | claims none _ _ => exact absurd none facts
    · intro f member known' held
      obtain ⟨item', inRecord', rfl⟩ := List.mem_map.mp member
      obtain ⟨known, attests, rfl⟩ := (coherent'.facts _ _).mp held
      rw [remainder.sameAttestation taken shadow apart stays item' inRecord' known attests]
  refine StandaloneCausalMemory.ingest_of_acceptable shadow.deferred ?_ remainder.sealing
    acceptable ?_
  · rw [scope]
    exact taken.admitted.scope.1
  · refine StandaloneCausalMemory.missing_eq_nil.mpr ?_
    intro f novel cause named
    obtain ⟨member, fresh⟩ := StandaloneCausalMemory.mem_novel.mp novel
    obtain ⟨item', inRecord', rfl⟩ := List.mem_map.mp member
    obtain ⟨item, inRecord, unselected, like⟩ := remainder.factsFrom item' inRecord'
    have attests : (m.record source r.compilation memory).Attests item.fact.factId item :=
      (attests_record fit).mpr (.inl ⟨inRecord, rfl⟩)
    rw [like.causes] at named
    have outside : cause ∉ selected := fun isSelected =>
      (unnamed _ item attests unselected cause isSelected).1 named
    obtain ⟨other, held⟩ :=
      (coherent.record fit taken.grown).causes _ item attests cause named
    rcases (attests_record fit).mp held with ⟨inRecord'', rfl⟩ | before
    · obtain ⟨other', member', likeOther⟩ := remainder.factsKept other inRecord'' outside
      cases known : m'.memory.facts.get other.fact.factId with
      | some f => exact .inl ((Dict.mem_keys_iff _ _).mpr ⟨f, known⟩)
      | none =>
        refine .inr ⟨other'.fact, StandaloneCausalMemory.mem_novel.mpr
          ⟨List.mem_map.mpr ⟨other', member', rfl⟩, ?_⟩, likeOther.factId⟩
        rw [likeOther.factId]
        exact known
    · obtain ⟨other', held'⟩ := shadow.kept cause other before outside
      exact .inl ((Dict.mem_keys_iff _ _).mpr
        ⟨other'.fact, (coherent'.facts _ _).mpr ⟨other', held', rfl⟩⟩)

include coherent coherent' in
theorem Remainder.published (unnamed : Unnamed selected (m.record source r.compilation memory)) :
    ∃ state memory', AuthorizedSidecarMemory.Published c m' (r'.batch g.scope) source'
        r'.compilation state memory' ∧
      m'.memory.Grown source' (r'.facts.map fun item => item.fact) memory' := by
  by_cases none : r'.facts = []
  · refine ⟨_, m'.memory, .claims none ?_ rfl, ?_⟩
    · intro known' held
      have identity' : source'.sourceId = r.sourceId := by
        rw [((sealed_eq_ok c).mp remainder.sealing).2]
        exact remainder.same.2.2.2
      have origin := shadow.sources _ known' held
      rw [identity'] at origin
      rcases origin.sha256_eq apart stays remainder with redacted | ⟨whole, known, held', sha⟩
      · exact redacted
      have same := remainder.source_eq taken whole
      have noFact : r.facts = [] := (remainder.whole whole).1 ▸ none
      rw [← sha, same]
      rw [← identity', same] at held'
      obtain ⟨state, published⟩ := taken.published
      cases published with
      | facts some_fact _ _ _ => exact absurd noFact some_fact
      | claims _ sameSource _ => exact sameSource known held'
    · simp only [none, List.map_nil]
      exact ⟨rfl, rfl, fun id f => by simp, nofun, fun _ _ found => .inr found, nofun,
        fun id known found => ⟨known, found, rfl⟩⟩
  · obtain ⟨outcome, memory', ingested, good⟩ :=
      remainder.ingest taken coherent coherent' shadow apart stays unnamed none
    exact ⟨outcome.state, memory', .facts none ingested rfl good,
      StandaloneCausalMemory.grown_of_ingest ingested good remainder.sealing⟩

include coherent coherent' in
/-- A claim that names no selected fact still names the whole population: had an orbit of the key
lost a fact, its last fact would be selected and named. -/
theorem Remainder.claimsAdmitted (closed : Closed selected (m.record source r.compilation memory))
    (fit' : m'.Fitting r'.compilation.facts)
    (grown' : m'.memory.Grown source' (r'.facts.map fun item => item.fact) memory') :
    ∀ claim' ∈ r'.completenessClaims, m'.admits c authority source' r'.facts claim' = true := by
  have fit := taken.fit.fitting
  have whole := coherent.record fit taken.grown
  have rest := coherent'.record fit' grown'
  have onward := shadow.record taken coherent coherent' apart stays remainder fit' grown'
  intro claim' member
  obtain ⟨verified, claim, inRecord, outside, scope, key, ids⟩ := remainder.claimsFrom claim' member
  have admitted := taken.fit.claimsAdmitted claim inRecord
  simp only [admits, Bool.and_eq_true, decide_eq_true_eq] at admitted ⊢
  obtain ⟨⟨-, inScope⟩, counted⟩ := admitted
  obtain ⟨canonical, named⟩ := (whole.selectedPopulation_iff
    fun _ _ => coherent.get_prospective fit).mp counted
  refine ⟨⟨verified, by rw [scope, inScope, shadow.scope]⟩, ?_⟩
  refine (rest.selectedPopulation_iff
    fun _ _ => coherent'.get_prospective fit').mpr ⟨ids ▸ canonical, fun id => ?_⟩
  rw [ids, key, named]
  constructor
  · rintro ⟨item, attests, here, active⟩
    have unselected := outside id ((named id).mpr ⟨item, attests, here, active⟩)
    obtain ⟨item', attests', like⟩ := onward.image attests unselected
    exact ⟨item', attests', like.key.trans here, onward.active active⟩
  · rintro ⟨item', attests', here, active'⟩
    obtain ⟨-, item, attests, like, -⟩ := onward.gone id item' attests'
    have here' : item.fact.key = claim.key := like.key.symm.trans here
    rcases onward.active_or whole closed attests active' with active | ⟨top, last, atTop, kin,
      active, isSelected⟩
    · exact ⟨item, attests, here', active⟩
    · have inPopulation := (named top).mpr ⟨last, atTop, kin.1.trans here', active⟩
      exact absurd isSelected (outside top inPopulation)

include coherent coherent' in
theorem Remainder.takes (closed : Closed selected m)
    (closed' : Closed selected (m.record source r.compilation memory))
    (unnamed : Unnamed selected (m.record source r.compilation memory))
    (fits : r.Loses selected → (r.redactedText selected).utf8ByteSize ≤ m.limits.maxSourceBytes) :
    ∃ memory', Takes c g m' r' authority source' memory' ∧
      Shadow c selected (rs ++ [r]) (m.record source r.compilation memory)
        (m'.record source' r'.compilation memory') := by
  have fit' := remainder.fitting taken coherent coherent' shadow apart stays closed unnamed
  obtain ⟨state, memory', published, grown'⟩ :=
    remainder.published taken coherent coherent' shadow apart stays unnamed
  have cited : ∀ item' ∈ r'.facts, verifyMicrocitation c item'.fact.toFactFields source' = true :=
    fun item' member =>
      ((AttestedSidecarFact.verify_eq_true c).mp (remainder.verified item' member)).2.2
  obtain ⟨adapter, scope, bound, identity⟩ := remainder.same
  refine ⟨memory', ⟨adapter ▸ taken.registered, ?_, remainder.digest, ?_, ?_, state, published⟩,
    shadow.record taken coherent coherent' apart stays remainder fit' grown'⟩
  · rw [scope, bound]
    exact taken.bound
  · refine ⟨?_, rfl, ?_, ⟨?_, taken.admitted.scope.2⟩, remainder.sealing, rfl⟩
    · rw [shadow.limits]
      show r'.content.utf8ByteSize ≤ _
      by_cases loses : r.Loses selected
      · rw [(remainder.redacted loses).1]
        exact fits loses
      · rw [(remainder.whole loses).2]
        exact taken.admitted.withinBytes
    · have trusted := taken.admitted.trusted
      simp only [AuthorizedSidecarMemory.trusted, shadow.authorities] at trusted ⊢
      exact trusted
    · rw [shadow.scope]
      exact taken.admitted.scope.1
  · refine ⟨?_, remainder.nonempty, remainder.canonical, ?_, ?_, remainder.verified,
      fit'.sameAttestation, fit'.oneOrbit, fit'.lineage, remainder.claimsOrdered,
      remainder.claimsAdmitted taken coherent coherent' shadow apart stays closed' fit' grown'⟩
    · rw [shadow.limits]
      exact ⟨Nat.le_trans remainder.counts.1 taken.fit.withinLimits.1,
        Nat.le_trans remainder.counts.2 taken.fit.withinLimits.2⟩
    · intro item' member
      have quoted := cited item' member
      simp only [verifyMicrocitation, Bool.and_eq_true, decide_eq_true_eq] at quoted
      exact ⟨fit'.sameScope item' member, quoted.1.1.1.2, quoted.1.1.2⟩
    · intro item' member
      exact ((AttestedSidecarFact.verify_eq_true c).mp (remainder.verified item' member)).2.1

end

section

variable {c : Crypto} {g : Registry} {selected : List Nat} {rs : List SidecarRecord}
  {m m' : AuthorizedSidecarMemory} {r : SidecarRecord} {authority : SidecarAuthority}
  {source : CausalSourceEnvelope} {memory : StandaloneCausalMemory}

theorem Shadow.dropped (taken : Takes c g m r authority source memory)
    (shadow : Shadow c selected rs m m') (apart : ∀ q ∈ rs, Apart selected q r)
    (dropped : ¬ r.Stays selected) :
    Shadow c selected (rs ++ [r]) (m.record source r.compilation memory) m' := by
  have fit := taken.fit.fitting
  have none : r.factsWithout selected = [] := (not_not.mp dropped).1
  refine ⟨shadow.scope, shadow.authorities, shadow.limits, shadow.deferred, ?_, ?_, ?_, ?_⟩
  · intro id item' attests'
    obtain ⟨unselected, item, attests, like, q, member, rest⟩ := shadow.gone id item' attests'
    exact ⟨unselected, item, (attests_record fit).mpr (.inr attests), like,
      q, List.mem_append_left [r] member, rest⟩
  · intro id item attests unselected
    rcases (attests_record fit).mp attests with ⟨member, rfl⟩ | before
    · have inRest : item ∈ r.factsWithout selected :=
        SidecarRecord.mem_factsWithout.mpr ⟨member, unselected⟩
      rw [none] at inRest
      cases inRest
    · exact shadow.kept id item before unselected
  · intro id known' found
    exact (shadow.coreSources id known' found).append fun _ => taken.grown.sameSource id
  · have identity : source.sourceId = r.sourceId := by
      rw [((sealed_eq_ok c).mp taken.admitted.sealing).2]
      rfl
    intro id known' found
    refine (shadow.sources id known' found).append ?_
    rintro ⟨q, member, stays, here, whole⟩ known held
    show ∃ known'', (m.sources.set source.sourceId source).get id = some known'' ∧ _
    rw [Dict.get_set, identity]
    by_cases same : r.sourceId = id
    · rw [if_pos same]
      by_cases facts : r.facts = []
      · refine ⟨source, rfl, ?_⟩
        obtain ⟨state, published⟩ := taken.published
        cases published with
        | facts some_fact _ _ _ => exact absurd facts some_fact
        | claims _ sameSource _ =>
          exact (sameSource known (by rw [identity, same]; exact held)).symm
      · have loses : r.Loses selected := fun kept => facts (kept.symm.trans none)
        exact absurd ((apart q member (here.trans same.symm) (.inr loses)).1 stays) whole
    · rw [if_neg same]
      exact ⟨known, held, rfl⟩

theorem Replayed.limits (replayed : Replayed c g rs m) : m.limits = .default := by
  induction replayed with
  | start made =>
    obtain rfl := eq_of_make made
    rfl
  | next before taken ih => exact ih

theorem replayed_without (replayed : Replayed c g rs m) (unnamed : Unnamed selected m)
    (apart : rs.Pairwise (Apart selected))
    (fits : ∀ r ∈ rs, r.Loses selected →
      (r.redactedText selected).utf8ByteSize ≤ SidecarLimits.default.maxSourceBytes) :
    ∃ kept m', rs.mapM (SidecarRecord.without c g selected) = .ok kept ∧
      Replayed c g (kept.filterMap id) m' ∧ Shadow c selected rs m m' := by
  induction replayed with
  | @start m made =>
    refine ⟨[], m, rfl, .start made, ?_⟩
    obtain rfl := eq_of_make made
    refine ⟨rfl, rfl, rfl, rfl, ?_, ?_, ?_, ?_⟩
    · intro id item attests
      cases attests
    · intro id item attests
      cases attests
    · intro id known found
      cases found
    · intro id known found
      cases found
  | @next rs m r authority source memory before taken ih =>
    have fit := taken.fit.fitting
    obtain ⟨earlier, -, between⟩ := List.pairwise_append.mp apart
    have apart' : ∀ q ∈ rs, Apart selected q r :=
      fun q member => between q member r List.mem_cons_self
    obtain ⟨kept, m', mapped, replayed', shadow⟩ := ih (unnamed.of_record fit) earlier
      fun q member => fits q (List.mem_append_left [r] member)
    have mapped' {stays : Option SidecarRecord} (here : r.without c g selected = .ok stays) :
        (rs ++ [r]).mapM (SidecarRecord.without c g selected) = .ok (kept ++ [stays]) := by
      rw [List.mapM_append, mapped, ok_bind, List.mapM_cons, here]
      rfl
    rcases without_of_taken taken with ⟨dropped, nothing⟩ | ⟨stays, r', source', made, remainder⟩
    · refine ⟨kept ++ [none], m', mapped' nothing, ?_, shadow.dropped taken apart' dropped⟩
      rw [List.filterMap_append]
      exact (List.append_nil _).symm ▸ replayed'
    · have closed := closed_of_replayed before (unnamed.of_record fit)
      obtain ⟨memory', taken', onward⟩ := remainder.takes taken before.coherent
        replayed'.coherent shadow apart' stays closed
        (Closed.record before.coherent fit unnamed closed) unnamed
        fun loses => before.limits ▸ fits r (List.mem_append_right rs List.mem_cons_self) loses
      refine ⟨kept ++ [some r'], _, mapped' made, ?_, onward⟩
      rw [List.filterMap_append]
      exact .next replayed' taken'

end

end ProofRay.Sidecar
