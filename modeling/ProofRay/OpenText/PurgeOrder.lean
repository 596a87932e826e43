/- The order of what survives: a purge that takes the last intent, which reopens, and one that takes
   the first, which commits and then raises. -/

import ProofRay.OpenText.FirstBundle
import ProofRay.Sidecar.PurgeErases

namespace ProofRay.OpenText

open Engine (Crypto stdCrypto)
open Lib (Dict)
open Lib.Guard
open Sidecar
open OpenTextMemory (call idsOfSources knownIds purgeFacts purgeSources reread)

def noteSession : Session := ⟨0, "s", "p", by decide⟩

def noteOne : RouteDocument :=
  ⟨⟨1, "x", 0, "s", 1, "a", none, none, none, none, none, none, none⟩, by decide⟩

def noteTwo : RouteDocument :=
  ⟨⟨2, "y", 0, "s", 1, "b", none, none, none, none, none, none, none⟩, by decide⟩

def intentOne : AnswerContextIntent := ⟨⟨"i", "t", [1], none, none⟩, by decide⟩

def intentTwo : AnswerContextIntent := ⟨⟨"j", "t", [2], none, none⟩, by decide⟩

def noteIngest : Call :=
  .ingestDocuments none [noteOne, noteTwo] [intentOne, intentTwo] (some "k")

theorem fits_noteIngest (c : Crypto) : IngestFits (noteSession.emptyMemory c)
    [noteOne, noteTwo] [intentOne, intentTwo] := by
  constructor
  case ordered => decide
  case scope =>
    show ∀ d ∈ [noteOne, noteTwo], d.scopeId = 0
    decide
  case replays =>
    rintro ⟨id, -, known⟩
    cases known
  case inside => decide
  case sessions => decide
  case names => decide
  case bound =>
    intro i _ prior known
    cases known

structure HoldsNotes (c : Crypto) (m : OpenTextMemory) : Prop where
  sound : Sound c m
  session : m.session = noteSession
  documents : m.documents = [noteOne, noteTwo]
  intents : m.contextIntents = [intentOne, intentTwo]
  ledger : ∃ r, m.host.durable.records = [r] ∧
    FirstRecord c noteSession (sourceOf c "k" [noteOne, noteTwo]) [noteOne, noteTwo] r

theorem holdsNotes_noteIngest (c : Crypto) : ∃ m report,
    (noteSession.emptyMemory c).call c noteIngest = (m, report) ∧ HoldsNotes c m := by
  obtain ⟨sound, -, -⟩ := sound_of_openStore (noteSession.openStore_emptyMemory c)
  obtain ⟨receipt, m, ingested, applied, ledger⟩ :=
    applied_of_first (fits_noteIngest c) (show "k" ≠ "" by decide) (by decide) (by decide)
  have safe : (noteSession.emptyMemory c).Safe noteIngest := by
    show ∀ d ∈ [noteOne, noteTwo], d.safetyPolicy = none
    decide
  have settles := settles_of_call sound safe
  have called : (noteSession.emptyMemory c).call c noteIngest = (m, .ingested (.ok receipt)) := by
    simp only [noteIngest, call, ingested]
  rw [called] at settles
  have survivors : m.survivors = ⟨[noteOne, noteTwo], [intentOne, intentTwo]⟩ := by
    refine settles.survivors.trans ?_
    simp only [noteIngest, Survivors.after, Survivors.ingest, if_pos applied]
    rfl
  refine ⟨m, _, called, settles.sound, settles.session, ?_, ?_, ledger⟩
  · exact congrArg Survivors.documents survivors
  · exact congrArg Survivors.intents survivors

section

variable {c : Crypto} {m : OpenTextMemory}

theorem safe_purge_noteTwo (holds : HoldsNotes c m) : m.Safe (.purgeSources none ["b"]) := by
  show m.TakesLast (m.idsOfSources ["b"])
  have asked : m.idsOfSources ["b"] = [2] := by
    rw [idsOfSources, holds.documents]
    rfl
  rw [OpenTextMemory.TakesLast, asked, holds.intents]
  have last : m.Loses [2] intentTwo := ⟨2, List.mem_singleton_self 2, .asked (by decide)⟩
  exact List.pairwise_pair.mpr fun _ => last

theorem reopens_as_survivors_notes : ∃ last reports,
    (openTextMachine stdCrypto).run (noteSession.emptyMemory stdCrypto)
      [noteIngest, .purgeSources none ["b"]] = some (last, reports) ∧
    (openTextMachine stdCrypto).Along (Answers stdCrypto) (noteSession.emptyMemory stdCrypto)
      [noteIngest, .purgeSources none ["b"]] ∧
    ∃ reopened, OpenTextMemory.openStore stdCrypto noteSession last.host.store = .ok reopened ∧
      reopened.survivors =
        (Survivors.mk [] []).afterAll [noteIngest, .purgeSources none ["b"]] reports ∧
      last.survivors =
        (Survivors.mk [] []).afterAll [noteIngest, .purgeSources none ["b"]] reports := by
  obtain ⟨m, report, called, holds⟩ := holdsNotes_noteIngest stdCrypto
  obtain ⟨last, reports, ran⟩ := exists_run (c := stdCrypto) (noteSession.emptyMemory stdCrypto)
    [noteIngest, .purgeSources none ["b"]]
  refine ⟨last, reports, ran, reopens_as_survivors stdCrypto noteSession _ last
    (noteSession.openStore_emptyMemory stdCrypto) _ reports ⟨?_, ?_⟩ ran⟩
  · show ∀ d ∈ [noteOne, noteTwo], d.safetyPolicy = none
    decide
  · intro next report' stepped
    have same : (noteSession.emptyMemory stdCrypto).call stdCrypto noteIngest = (next, report') :=
      Option.some.inj stepped
    rw [called] at same
    cases same
    exact ⟨safe_purge_noteTwo holds, fun _ _ _ => trivial⟩

variable {id : Nat}

theorem goes_noteOne : Goes [[1], [2]] [1] id ↔ id = 1 := by
  constructor
  · intro goes
    induction goes with
    | asked member => exact List.mem_singleton.mp member
    | @follows fiber first id known before here member ih =>
      subst ih
      rcases List.mem_cons.mp known with rfl | known
      · exact List.mem_singleton.mp member
      · rw [List.mem_singleton.mp known] at here
        cases List.mem_singleton.mp here
  · rintro rfl
    exact .asked (List.mem_singleton_self 1)

theorem mem_purge_noteOne (holds : HoldsNotes c m) :
    id ∈ purgeSelection m.host.durable.memory.attestedFacts [1] ↔ id = 1 := by
  have fibers : m.fibers = [[1], [2]] := by
    rw [OpenTextMemory.fibers, holds.intents]
    rfl
  have known : ∀ id ∈ [1], id ∈ m.knownIds := by
    rw [knownIds, holds.documents]
    decide
  rw [holds.sound.mem_purgeSelection known, fibers]
  exact goes_noteOne

theorem purged_noteOne (holds : HoldsNotes c m) : ∃ receipt next,
    m.host.durable.stagePurge c [1] "a" = .ok (receipt, next) := by
  obtain ⟨r, ledger, noClaim, facts, sorted, all⟩ := holds.ledger
  cases all with
  | @cons _ a₁ _ _ one rest =>
    cases rest with
    | @cons _ a₂ _ _ two rest =>
      cases rest
      have perm : r.facts.Perm [a₁, a₂] := sorted ▸ List.perm_insertionSort _ _
      have each : ∀ item ∈ r.facts, item = a₁ ∨ item = a₂ := by
        intro item member
        simpa using perm.mem_iff.mp member
      let selected := purgeSelection m.host.durable.memory.attestedFacts [1]
      have stays : r.factsWithout selected = [a₂] := by
        have first : a₁.fact.factId ∈ selected := (mem_purge_noteOne holds).mpr one.factId
        have second : a₂.fact.factId ∉ selected := by
          rw [mem_purge_noteOne holds, two.factId]
          decide
        have kept := perm.filter fun item => item.fact.factId ∉ selected
        rw [List.filter_cons_of_neg (by simpa using first),
          List.filter_cons_of_pos (by simpa using second)] at kept
        exact List.perm_singleton.mp kept
      have erasable : Erasable selected m.host.durable.records := by
        rw [ledger]
        refine ⟨List.pairwise_singleton _ _, List.forall_mem_singleton.mpr fun _ => ?_⟩
        rw [SidecarRecord.redactedText, stays]
        show (String.ofList (joinLines [a₂.fact.value])).utf8ByteSize ≤ _
        rw [two.value]
        decide
      have asked : "a" ≠ "" ∧ [1] ≠ [] ∧ Canonical [1] := by decide
      have some_fact : selected ≠ [] :=
        List.ne_nil_of_mem ((mem_purge_noteOne holds).mpr rfl)
      have erases : PurgeErases c m.host [1] "a" :=
        purgeErases_of_synced holds.sound.synced erasable
      obtain ⟨receipt, h', called, purged⟩ := erases.2 asked some_fact (by
        intro item member _ id _
        obtain ⟨_, attests⟩ := mem_attestedFacts.mp member
        obtain ⟨q, inLedger, inRecord, -⟩ := holds.sound.synced.attests_iff.mp attests
        rw [ledger, List.mem_singleton] at inLedger
        rcases each item (inLedger ▸ inRecord) with rfl | rfl
        · simp [one.causes, one.supersedes]
        · simp [two.causes, two.supersedes])
      cases staged : m.host.durable.stagePurge c [1] "a" with
      | ok stage => exact ⟨stage.1, stage.2, rfl⟩
      | error outcome =>
        rw [Host.purgeFactIds, staged] at called
        cases called
        exact absurd purged (DurableAuthorizedSidecarMemory.state_of_stagePurge staged)

theorem left_by_purge_noteOne (holds : HoldsNotes c m) {receipt : CausalDeleteReceipt}
    {next : DurableAuthorizedSidecarMemory}
    (staged : m.host.durable.stagePurge c [1] "a" = .ok (receipt, next)) :
    ∃ item, next.memory.attestedFacts = [item] ∧ Legible 0 item ∧
      noteTwo.toDocumentFields = documentOf 0 "s" item ∧
      ∀ i, i ∈ intentsOf item ↔ i = observe 1 intentTwo := by
  obtain ⟨synced', -⟩ := synced_of_stagePurge holds.sound.synced staged
  obtain ⟨retains, -⟩ := attests_of_stagePurge holds.sound.synced staged
  have reads := holds.sound.reads
  rw [holds.session, holds.documents, holds.intents] at reads
  have second : observe 1 intentTwo ∈ observedFrom 0 [intentOne, intentTwo] :=
    List.mem_cons_of_mem _ List.mem_cons_self
  obtain ⟨item, inItems, two, carried⟩ := reads.fiber _ second 2 (List.mem_singleton_self 2)
  have its : ∀ i, i ∈ intentsOf item ↔ i = observe 1 intentTwo := by
    intro i
    constructor
    · intro member
      have inside := reads.within item inItems i member
      have known := (reads.observed i).mp ⟨item, inItems, member⟩
      simp only [observedFrom, List.mem_cons, List.not_mem_nil, or_false] at known
      rcases known with rfl | rfl
      · rw [two] at inside
        cases List.mem_singleton.mp inside
      · rfl
    · rintro rfl
      exact carried
  have text : noteTwo.toDocumentFields = documentOf 0 "s" item := by
    have member : documentOf 0 "s" item ∈
        [noteOne, noteTwo].map fun d => d.toDocumentFields := by
      rw [reads.texts]
      exact List.mem_map_of_mem inItems
    have factId : (documentOf 0 "s" item).factId = 2 := factId_documentOf.trans two
    simp only [List.map_cons, List.map_nil, List.mem_cons, List.not_mem_nil, or_false] at member
    rcases member with here | here
    · rw [here] at factId
      cases factId
    · exact here.symm
  obtain ⟨id, attests⟩ := mem_attestedFacts.mp inItems
  have isTwo : id = 2 := (holds.sound.synced.factId attests).symm.trans two
  subst isTwo
  have unselected : 2 ∉ purgeSelection m.host.durable.memory.attestedFacts [1] := by
    rw [mem_purge_noteOne holds]
    decide
  obtain ⟨item', attests', like⟩ := retains.kept 2 item attests unselected
  have alone : next.memory.attestedFacts = [item'] := by
    refine eq_of_canonical synced'.canonical (List.pairwise_singleton _ _) fun other => ?_
    rw [List.mem_singleton]
    constructor
    · intro member
      obtain ⟨id, there⟩ := mem_attestedFacts.mp member
      obtain ⟨stays, before, held, -⟩ := retains.gone id other there
      have known := holds.sound.mem_knownIds.mpr ⟨before, held⟩
      rw [knownIds, holds.documents] at known
      rw [mem_purge_noteOne holds] at stays
      have isTwo : id = 2 := by
        simp only [noteOne, noteTwo, List.map_cons, List.map_nil, List.mem_cons, List.not_mem_nil,
          or_false] at known
        omega
      subst isTwo
      exact AuthorizedSidecarMemory.Attests.unique there attests'
    · rintro rfl
      exact mem_attestedFacts.mpr ⟨2, attests'⟩
  refine ⟨item', alone, legible_like like (reads.legible item inItems), ?_, fun i => ?_⟩
  · rw [documentOf_like like]
    exact text
  · rw [intentsOf_like like]
    exact its i

theorem stateFromSidecar_noteTwo {item : AttestedSidecarFact} (legible : Legible 0 item)
    (text : noteTwo.toDocumentFields = documentOf 0 "s" item)
    (its : ∀ i, i ∈ intentsOf item ↔ i = observe 1 intentTwo)
    (snapshot : List RouteDocument × List AnswerContextIntent) :
    stateFromSidecar 0 "s" [item] ≠ .ok snapshot := by
  intro read
  have factId : item.fact.factId = 2 := by
    have named : (documentOf 0 "s" item).factId = item.fact.factId := factId_documentOf
    rw [← named, ← text]
    rfl
  have inside : ∀ i ∈ intentsOf item, item.fact.factId ∈ i.factIds := by
    intro i member
    rw [(its i).mp member, factId]
    exact List.mem_singleton_self 2
  have carried (p : Nat × SidecarObservedIntent) :
      p ∈ (intentsOf item).map (fun i => (item.fact.factId, i)) ↔ p = (2, observe 1 intentTwo) := by
    simp only [List.mem_map, its, exists_eq_left, factId, eq_comm]
  have start : Holds ⟨[], .empty, .empty⟩ [] := ⟨by simp, by simp⟩
  have agree : OneName ([] ++ (intentsOf item).map fun i => (item.fact.factId, i)) := by
    intro p first q second _
    rw [(carried p).mp first, (carried q).mp second]
  obtain ⟨s, step, -, held⟩ := gatherFact_of start legible text inside agree
  rw [List.nil_append] at held
  simp only [stateFromSidecar, List.foldlM_cons, List.foldlM_nil, step, ok_bind, bind_eq_ok,
    pure_eq_ok, require_eq_ok, mapError_eq_ok] at read
  obtain ⟨s', rfl, -, -, -, orders, -⟩ := read
  have only : ∀ i, i ∈ s.intentById.items.map Prod.snd ↔ i = observe 1 intentTwo := by
    intro i
    simp only [List.mem_map, Prod.exists, exists_eq_right, ← Dict.get_eq_some_iff, held.intents,
      exists_eq_left', carried, Prod.mk.injEq]
    constructor
    · rintro ⟨id, -, same⟩
      exact same
    · rintro rfl
      exact ⟨2, rfl, rfl⟩
  have sorted (i : SidecarObservedIntent) : i ∈ (s.intentById.items.map Prod.snd).insertionSort
      (fun a b => a.insertionOrder ≤ b.insertionOrder) ↔ i = observe 1 intentTwo :=
    (List.perm_insertionSort _ _).mem_iff.trans (only i)
  have some_intent := List.length_pos_of_mem ((sorted _).mpr rfl)
  have zeroth := List.mem_range.mpr some_intent
  rw [← orders] at zeroth
  obtain ⟨i, member, first⟩ := List.mem_map.mp zeroth
  rw [(sorted i).mp member] at first
  cases first

theorem purge_noteOne_raises (holds : HoldsNotes c m) :
    ¬ Answers c m (.purgeSources none ["a"]) := by
  obtain ⟨receipt, next, staged⟩ := purged_noteOne holds
  obtain ⟨synced', registry⟩ := synced_of_stagePurge holds.sound.synced staged
  obtain ⟨item, left, legible, text, its⟩ := left_by_purge_noteOne holds staged
  obtain ⟨-, purged, -⟩ :=
    DurableAuthorizedSidecarMemory.openStore_of_stagePurge holds.sound.synced staged
  have asked : m.idsOfSources ["a"] = [1] := by
    rw [idsOfSources, holds.documents]
    rfl
  have fails : ∃ e, stateFromSidecar 0 "s" next.memory.attestedFacts = .error e := by
    cases read : stateFromSidecar 0 "s" next.memory.attestedFacts with
    | error e => exact ⟨e, rfl⟩
    | ok snapshot =>
      rw [left] at read
      exact absurd read (stateFromSidecar_noteTwo legible text its snapshot)
  obtain ⟨e, fails⟩ := fails
  have called : m.call c (.purgeSources none ["a"]) =
      ({ m with host := ⟨next, next.recordBytes⟩ }, .purged (.error e)) := by
    have canonical : ¬ ¬ (["a"] ≠ [] ∧ Canonical ["a"] ∧ "" ∉ ["a"]) := by decide
    simp only [call, purgeSources, if_neg canonical, asked]
    rw [if_pos (.inr rfl), purgeFacts, if_neg (List.cons_ne_nil _ _),
      show ["a"].headD "" = "a" from rfl, Host.purgeFactIds, staged]
    simp only [Host.commit, if_neg (not_not.mpr purged), reread]
    rw [holds.session]
    simp only [noteSession, fails]
  intro answers
  unfold Answers at answers
  rw [called] at answers
  have changed : next.recordBytes ≠ m.host.store := by
    intro same
    have before : DurableAuthorizedSidecarMemory.openStore c m.host.durable.registry m.host.store =
        .ok m.host.durable := holds.sound.synced
    have after : DurableAuthorizedSidecarMemory.openStore c next.registry next.recordBytes =
        .ok next := synced'
    rw [registry, same, before, Except.ok.injEq] at after
    have known : 1 ∈ m.knownIds := by
      rw [knownIds, holds.documents]
      decide
    rw [knownIds, holds.sound.reads.factIds, after, left] at known
    have named : (documentOf 0 "s" item).factId = item.fact.factId := factId_documentOf
    rw [List.map_singleton, List.mem_singleton, ← named, ← text] at known
    cases known
  obtain ⟨receipt', returned⟩ := answers changed
  cases returned

end

/-- A memory over an empty store, two notes with an intent each, and the purge of the first: it
commits and raises. -/
theorem not_answers_purge_noteOne :
    OpenTextMemory.openStore stdCrypto noteSession [] = .ok (noteSession.emptyMemory stdCrypto) ∧
    ¬ (openTextMachine stdCrypto).Along (Answers stdCrypto) (noteSession.emptyMemory stdCrypto)
      [noteIngest, .purgeSources none ["a"]] := by
  refine ⟨noteSession.openStore_emptyMemory stdCrypto, ?_⟩
  rintro ⟨-, onward⟩
  obtain ⟨m, report, called, holds⟩ := holdsNotes_noteIngest stdCrypto
  exact purge_noteOne_raises holds (onward m report (congrArg some called)).1

end ProofRay.OpenText
