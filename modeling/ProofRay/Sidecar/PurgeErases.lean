/- Purges: when what stays of a ledger recovers, what text it still holds, and the text that a
   purge leaves where records share a source. -/

import Mathlib.Data.List.Pairwise
import ProofRay.Sidecar.ClaimRevival
import ProofRay.Sidecar.Holdings
import ProofRay.Sidecar.PurgeReplay

namespace ProofRay.Sidecar

open Engine (Bytes Crypto stdCrypto)
open Lib (Dict)
open Lib.Guard

section

variable {c : Crypto} {g : Registry} {rs : List SidecarRecord} {m : AuthorizedSidecarMemory}

theorem executor_of_coherent (coherent : m.Coherent) (scope : m.scope ≠ "")
    (some_fact : m.memory.facts.items ≠ []) : ∃ executor,
    TypedCausalExecutor.make (StandaloneCausalMemory.sortedFacts m.memory.facts)
      m.memory.scope = .ok executor := by
  let sorted := m.memory.facts.sortedBy id
  have perm : sorted.Perm m.memory.facts.items := List.perm_insertionSort _ _
  have held : ∀ e ∈ sorted, ∃ item, m.Attests e.1 item ∧ item.fact = e.2 := by
    intro e member
    exact (coherent.facts e.1 e.2).mp
      ((m.memory.facts.get_eq_some_iff e.1 e.2).mpr (perm.mem_iff.mp member))
  have names : ∀ e ∈ sorted, e.2.factId = e.1 := by
    intro e member
    obtain ⟨item, attests, same⟩ := held e member
    rw [← same]
    exact coherent.ids e.1 item attests
  have ids : (StandaloneCausalMemory.sortedFacts m.memory.facts).map (fun f => f.factId) =
      sorted.map Prod.fst := by
    rw [StandaloneCausalMemory.sortedFacts, List.map_map]
    exact List.map_congr_left names
  have canonical : Canonical (sorted.map Prod.fst) := by
    have rising : (sorted.map Prod.fst).Pairwise (· ≤ ·) :=
      List.pairwise_map.mpr (List.pairwise_insertionSort _ _)
    have distinct : (sorted.map Prod.fst).Nodup :=
      (perm.map Prod.fst).nodup_iff.mpr m.memory.facts.nodup
    exact (rising.and distinct).imp fun h => Nat.lt_of_le_of_ne h.1 h.2
  unfold TypedCausalExecutor.make
  rw [require_of, ok_bind, require_of, ok_bind, require_of, ok_bind, require_of, ok_bind]
  · exact ⟨_, rfl⟩
  · intro f member cause named
    obtain ⟨e, inSorted, rfl⟩ := List.mem_map.mp member
    obtain ⟨item, attests, same⟩ := held e inSorted
    obtain ⟨other, attests'⟩ := coherent.causes _ item attests cause (same ▸ named)
    have known := (coherent.facts cause other.fact).mpr ⟨other, attests', rfl⟩
    rw [ids]
    exact List.mem_map.mpr
      ⟨(cause, other.fact), perm.mem_iff.mpr ((Dict.get_eq_some_iff _ _ _).mp known), rfl⟩
  · intro f member
    obtain ⟨e, inSorted, rfl⟩ := List.mem_map.mp member
    obtain ⟨item, attests, same⟩ := held e inSorted
    rw [← same, coherent.sameScope _ item attests, coherent.scope]
  · rw [ids]
    exact canonical
  · refine ⟨?_, coherent.scope ▸ scope⟩
    intro none
    have empty : sorted = [] := List.map_eq_nil_iff.mp none
    exact some_fact (empty ▸ perm).nil_eq.symm

theorem finalizePublication_of_coherent (coherent : m.Coherent) (scope : m.scope ≠ "") :
    ∃ m', m.finalizePublication = .ok m' := by
  unfold AuthorizedSidecarMemory.finalizePublication
  split
  · suffices ∃ memory, m.memory.finalizePublication = .ok memory by
      obtain ⟨memory, final⟩ := this
      exact ⟨{ m with memory, deferPublication := false }, by rw [final]; rfl⟩
    unfold StandaloneCausalMemory.finalizePublication
    split
    · split
      · exact ⟨_, rfl⟩
      · rename_i some_fact
        obtain ⟨executor, made⟩ := executor_of_coherent coherent scope some_fact
        exact ⟨_, by rw [made]; rfl⟩
    · exact ⟨_, rfl⟩
  · exact ⟨_, rfl⟩

private theorem foldlM_rechain (sequence : Nat) (previous : String)
    (s : AuthorizedSidecarMemory × Option SidecarIngestReceipt) :
    (rechain c sequence previous rs).foldlM (g.replayRecord c) s =
      rs.foldlM (g.replayRecord c) s := by
  induction rs generalizing sequence previous s with
  | nil => rfl
  | cons r rs ih =>
    rw [rechain, List.foldlM_cons, List.foldlM_cons]
    exact bind_congr_ok fun s' _ => ih _ _ s'

theorem recover_rechain : g.recover c (rechain c 1 genesis rs) = g.recover c rs := by
  simp only [Registry.recover, foldlM_rechain]

end

section

variable {c : Crypto} {g : Registry} {rs : List SidecarRecord} {m m' : AuthorizedSidecarMemory}
  {selected : List Nat}

theorem Replayed.scope (replayed : Replayed c g rs m) : m.scope = g.scope := by
  induction replayed with
  | start made =>
    obtain rfl := AuthorizedSidecarMemory.eq_of_make made
    rfl
  | next before taken ih => exact ih

end

/-- No text of a removed fact is left: where a fact was removed from a source, the records that
stay of it hold characters of retained values and newlines only. -/
def Erased (selected : List Nat) (before after : List SidecarRecord) : Prop :=
  ∀ r ∈ after, (∃ q ∈ before, q.sourceId = r.sourceId ∧
      ∃ item ∈ q.facts, item.fact.factId ∈ selected) →
    ∀ ch ∈ r.content.toList, ch = '\n' ∨ ∃ k ∈ after, ∃ item ∈ k.facts, ch ∈ item.fact.value.toList

/-- A purge that is answered `PURGED` erases, and one of facts that no retained fact names is
answered so. -/
def PurgeErases (c : Crypto) (h : Host) (factIds : List Nat) (sourceId : String) : Prop :=
  let selected := purgeSelection h.durable.memory.attestedFacts factIds
  (∀ failure receipt h', h.purgeFactIds c failure factIds sourceId = (.ok receipt, h') →
    receipt.state = .purged → Erased selected h.durable.records h'.durable.records) ∧
  (sourceId ≠ "" ∧ factIds ≠ [] ∧ Canonical factIds → selected ≠ [] →
    (∀ item ∈ h.durable.memory.attestedFacts, item.fact.factId ∉ selected →
      ∀ s ∈ selected, s ∉ item.fact.causes ∧ s ∉ item.lifecycle.supersedes) →
    ∃ receipt h', h.purgeFactIds c none factIds sourceId = (.ok receipt, h') ∧
      receipt.state = .purged)

/-- The selected facts can go without a trace: what stays of a source that loses a fact is redacted
in every record, to one text, and no redaction grows over the limit of a source. -/
structure Erasable (selected : List Nat) (records : List SidecarRecord) : Prop where
  apart : records.Pairwise (Apart selected)
  fits : ∀ r ∈ records, r.Loses selected →
    (r.redactedText selected).utf8ByteSize ≤ SidecarLimits.default.maxSourceBytes

section

variable {c : Crypto} {g : Registry} {rs kept : List SidecarRecord}
  {m : AuthorizedSidecarMemory} {selected : List Nat}

theorem erased_of_apart (replayed : Replayed c g rs m) (apart : rs.Pairwise (Apart selected))
    (filtered : recordsWithoutFactIds c g selected rs = .ok kept) : Erased selected rs kept := by
  simp only [recordsWithoutFactIds, bind_eq_ok, pure_eq_ok] at filtered
  obtain ⟨without, mapped, rfl⟩ := filtered
  rintro r member ⟨q, inLedger, sameSource, lost⟩ ch inText
  obtain ⟨r₀, inKept, identity, content, -⟩ := mem_rechain member
  obtain ⟨stays, member', rfl⟩ := List.mem_filterMap.mp inKept
  obtain ⟨old, inLedger', made⟩ := mem_of_mapM_ok mapped _ member'
  obtain ⟨m, authority, source, memory, taken⟩ := replayed.taken_of_mem inLedger'
  have becomes : (¬ old.Stays selected ∧ old.without c g selected = .ok none) ∨ _ :=
    without_of_taken taken
  rcases becomes with ⟨-, nothing⟩ | ⟨stays, r', source', made', remainder⟩
  · rw [nothing] at made
    cases made
  · rw [made'] at made
    obtain rfl := Option.some.inj (Except.ok.inj made)
    have origin : q.sourceId = old.sourceId :=
      sameSource.trans (identity.trans remainder.same.2.2.2)
    have loses : old.Loses selected := by
      by_contra whole
      have qLoses : q.Loses selected := SidecarRecord.loses_iff.mpr lost
      have other : q ≠ old := fun same => whole (same ▸ qLoses)
      have symm : Std.Symm (Apart selected) := ⟨fun _ _ parted => parted.symm⟩
      have parted : Apart selected q old := apart.forall inLedger inLedger' other
      exact whole ((parted origin (.inl qLoses)).2.1 stays)
    rw [content, (remainder.redacted loses).1, SidecarRecord.redactedText,
      String.toList_ofList] at inText
    refine (mem_joinLines inText).imp_right ?_
    rintro ⟨value, inValues, inValue⟩
    obtain ⟨item, inRest, rfl⟩ := List.mem_map.mp inValues
    have inRest := (List.perm_insertionSort _ _).mem_iff.mp inRest
    obtain ⟨inRecord, unselected⟩ := SidecarRecord.mem_factsWithout.mp inRest
    obtain ⟨item', inRecord', like⟩ := remainder.factsKept item inRecord unselected
    have rechained : ∃ k ∈ rechain c 1 genesis (without.filterMap id), k.facts = r'.facts :=
      facts_of_rechain inKept
    obtain ⟨k, inAfter, same⟩ := rechained
    exact ⟨k, inAfter, item', same ▸ inRecord', like.value ▸ inValue⟩

theorem recover_of_erasable (replayed : Replayed c g rs m) (scope : g.scope ≠ "")
    (erasable : Erasable selected rs) (unnamed : Unnamed selected m) :
    ∃ kept m' last, recordsWithoutFactIds c g selected rs = .ok kept ∧
      g.recover c kept = .ok (m', last) := by
  obtain ⟨without, m₀, mapped, replayed', shadow⟩ :=
    replayed_without replayed unnamed erasable.apart erasable.fits
  have scope' : m₀.scope ≠ "" := by
    rw [shadow.scope, replayed.scope]
    exact scope
  obtain ⟨m', final⟩ := finalizePublication_of_coherent replayed'.coherent scope'
  obtain ⟨last, recovered⟩ := recover_iff.mpr ⟨m₀, replayed', final⟩
  refine ⟨rechain c 1 genesis (without.filterMap id), m', last, ?_, ?_⟩
  · simp only [recordsWithoutFactIds, mapped, ok_bind]
    rfl
  · rw [recover_rechain]
    exact recovered

theorem purgeErases_of_synced {h : Host} (synced : h.Synced c) {factIds : List Nat}
    {sourceId : String} (erasable : Erasable
      (purgeSelection h.durable.memory.attestedFacts factIds) h.durable.records) :
    PurgeErases c h factIds sourceId := by
  obtain ⟨known, -, recovered, -⟩ := DurableAuthorizedSidecarMemory.openStore_eq_ok.mp synced
  obtain ⟨m₀, replayed, final⟩ := recover_iff.mp recovered
  refine ⟨fun failure receipt h' called purged => ?_, fun asked some_fact unnamed => ?_⟩
  · unfold Host.purgeFactIds at called
    cases staged : h.durable.stagePurge c factIds sourceId with
    | error outcome =>
      rw [staged] at called
      cases called
      exact absurd purged (DurableAuthorizedSidecarMemory.state_of_stagePurge staged)
    | ok stage =>
      obtain ⟨receipt', next⟩ := stage
      rw [staged] at called
      cases failure with
      | some error =>
        cases called
        cases purged
      | none =>
        cases called
        obtain ⟨-, -, candidate, memory, last, filtered, -, -, rfl⟩ :=
          DurableAuthorizedSidecarMemory.stagePurge_eq_ok.mp staged
        exact erased_of_apart replayed erasable.apart filtered
  · have unnamed' : Unnamed (purgeSelection h.durable.memory.attestedFacts factIds) m₀ := by
      intro id item attests unselected
      have attests' : h.durable.memory.Attests id item := by
        rw [AuthorizedSidecarMemory.Attests, (attestations_of_finalizePublication final).1]
        exact attests
      obtain rfl := replayed.coherent.ids id item attests
      exact unnamed item (mem_attestedFacts.mpr ⟨_, attests'⟩) unselected
    obtain ⟨candidate, memory, last, filtered, recovered'⟩ :=
      recover_of_erasable replayed known.1 erasable unnamed'
    have staged := DurableAuthorizedSidecarMemory.stagePurge_eq_ok.mpr
      ⟨asked, some_fact, candidate, memory, last, filtered, recovered', rfl, rfl⟩
    unfold Host.purgeFactIds
    rw [staged]
    exact ⟨_, _, rfl, rfl⟩

/-- In every state that calls reach, a purge of facts that can go erases them, and is not refused
when no retained fact names them. -/
theorem purge_erases {δ : Type} (c : Crypto) (g : Registry) (store : List Bytes)
    (d : DurableAuthorizedSidecarMemory)
    (opened : DurableAuthorizedSidecarMemory.openStore c g store = .ok d) (calls : List (Call δ))
    (h : Host) (reports : List Report)
    (ran : (ledgerMachine c δ).run ⟨d, store⟩ calls = some (h, reports)) (factIds : List Nat)
    (sourceId : String) (erasable : Erasable
      (purgeSelection h.durable.memory.attestedFacts factIds) h.durable.records) :
    PurgeErases c h factIds sourceId := by
  obtain ⟨-, -, -, registry, -⟩ := DurableAuthorizedSidecarMemory.openStore_eq_ok.mp opened
  have start : Host.Synced c ⟨d, store⟩ := by
    unfold Host.Synced
    rw [registry]
    exact opened
  exact purgeErases_of_synced (synced_of_run start ran).1 erasable

end

theorem purge_erases_note : PurgeErases stdCrypto (noteAlone stdCrypto) [1] "doc" := by
  obtain ⟨reports, ran⟩ := run_noteAlone stdCrypto
  have none : (noteRecord stdCrypto [] (oneNote stdCrypto)).factsWithout [1] = [] := rfl
  refine purge_erases stdCrypto noteRegistry [] noteLedger (openStore_noteLedger stdCrypto) _
    (noteAlone stdCrypto) reports ran [1] "doc" ⟨List.pairwise_singleton _ _, ?_⟩
  refine List.forall_mem_singleton.mpr fun _ => ?_
  show ((noteRecord stdCrypto [] (oneNote stdCrypto)).redactedText [1]).utf8ByteSize ≤ _
  rw [SidecarRecord.redactedText, none]
  exact Nat.zero_le _

theorem not_erased_note (c : Crypto) : ¬ PurgeErases c (noteHost c) [1] "doc" := by
  rintro ⟨erases, -⟩
  obtain ⟨receipt, purged, staged⟩ := stage_notePurge c
  have called : (noteHost c).purgeFactIds c none [1] "doc" =
      (.ok receipt, ⟨noteMiddle c, (noteMiddle c).recordBytes⟩) := by
    simp only [Host.purgeFactIds, staged, Host.commit]
  have selected : purgeSelection (noteHost c).durable.memory.attestedFacts [1] = [1] := rfl
  have erased := erases none receipt _ called purged
  rw [selected] at erased
  have held : (noteRecord c [noteRecord c [] (emptyNotes c)] (oneNote c)) ∈
      (noteHost c).durable.records := List.mem_cons_of_mem _ List.mem_cons_self
  have lost : ∃ item ∈ (noteRecord c [noteRecord c [] (emptyNotes c)] (oneNote c)).facts,
      item.fact.factId ∈ [1] := ⟨noteItem c, List.mem_cons_self, List.mem_cons_self⟩
  have inText : 'x' ∈ (noteRecord c [] (emptyNotes c)).content.toList := by
    show 'x' ∈ "x".toList
    decide
  rcases erased (noteRecord c [] (emptyNotes c)) List.mem_cons_self ⟨_, held, rfl, lost⟩ 'x' inText
    with newline | ⟨k, kept, item, inFacts, -⟩
  · revert newline
    decide
  · obtain rfl := List.mem_singleton.mp kept
    cases inFacts

theorem purge_keeps_text :
    (∃ reports, (ledgerMachine stdCrypto Unit).run ⟨noteLedger, []⟩ (noteCalls stdCrypto) =
      some (noteHost stdCrypto, reports)) ∧
    ¬ PurgeErases stdCrypto (noteHost stdCrypto) [1] "doc" :=
  ⟨run_noteCalls stdCrypto, not_erased_note stdCrypto⟩

end ProofRay.Sidecar
