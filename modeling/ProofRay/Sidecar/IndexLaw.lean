/- The secondary index of an authorised memory: what it groups, how versions rise in it, and that
   every batch keeps this, and so do forks and publication. -/

import Mathlib.Logic.Relation
import ProofRay.Sidecar.Replay

namespace ProofRay.Sidecar

open Engine (Crypto)
open Lib (Dict)
open Lib.Guard

namespace AuthorizedSidecarMemory

def grouping (m : AuthorizedSidecarMemory) (key : Key) : List (Nat × AttestedSidecarFact) :=
  m.attestations.items.filter fun e => e.2.fact.key = key

def Supersedes (m : AuthorizedSidecarMemory) (old new : Nat) : Prop :=
  m.supersededBy.get old = some new

/-- The index does not drift. A key that only a completeness claim named holds an empty
population. -/
structure IndexLaw (m : AuthorizedSidecarMemory) : Prop where
  grouped : ∀ key, (m.byKey key).items.Perm (m.grouping key)
  stored : ∀ key, (m.factsByKey.get key).isSome →
    m.grouping key ≠ [] ∨ (m.completeness.get key).isSome
  increasing : ∀ old new, Relation.TransGen m.Supersedes old new →
    ∃ a b, m.Attests old a ∧ m.Attests new b ∧ a.fact.Kin b.fact.toFactFields ∧
      a.fact.version < b.fact.version
  current : ∀ id item, m.Attests id item → ∃! last, m.supersededBy.get last = none ∧
    ∃ top, m.Attests last top ∧ top.fact.Kin item.fact.toFactFields

/-- What carries the law from batch to batch. -/
structure Lawful (m : AuthorizedSidecarMemory) : Prop where
  coherent : m.Coherent
  stored : ∀ key population, m.factsByKey.get key = some population →
    (∃ id item, population.get id = some item) ∨ (m.completeness.get key).isSome
  rising : ∀ old new, m.Supersedes old new →
    ∃ a b, m.Attests old a ∧ m.Attests new b ∧ a.fact.Kin b.fact.toFactFields ∧
      a.fact.version < b.fact.version

variable {c : Crypto} {m m' : AuthorizedSidecarMemory}

theorem mem_grouping {key : Key} {id : Nat} {item : AttestedSidecarFact} :
    (id, item) ∈ m.grouping key ↔ m.Attests id item ∧ item.fact.key = key := by
  simp only [grouping, List.mem_filter, decide_eq_true_eq, Attests, Dict.get_eq_some_iff]

theorem Lawful.law (lawful : m.Lawful) : m.IndexLaw where
  grouped := by
    intro key
    have nodup : ((m.grouping key).map Prod.fst).Nodup :=
      m.attestations.nodup.sublist (List.filter_sublist.map _)
    refine Dict.items_perm (e := ⟨m.grouping key, nodup⟩) fun id => ?_
    refine Option.ext fun item => ?_
    rw [lawful.coherent.keys, Dict.get_eq_some_iff]
    exact mem_grouping.symm
  stored := by
    intro key found
    obtain ⟨population, found⟩ := Option.isSome_iff_exists.mp found
    refine (lawful.stored key population found).imp_left ?_
    rintro ⟨id, item, inside⟩ empty
    have held : (m.byKey key).get id = some item := by rwa [byKey, found]
    have member := mem_grouping.mpr ((lawful.coherent.keys key id item).mp held)
    rw [empty] at member
    cases member
  increasing := by
    intro old new chain
    induction chain with
    | single step => exact lawful.rising _ _ step
    | tail _ step ih =>
      obtain ⟨a, b, attests, middle, kin, below⟩ := ih
      obtain ⟨b', d, middle', attests', kin', below'⟩ := lawful.rising _ _ step
      obtain rfl := middle.unique middle'
      exact ⟨a, d, attests, attests', kin.trans kin', below.trans below'⟩
  current := by
    intro id item attests
    obtain ⟨top, last, found, active, kin, rest⟩ := lawful.coherent.chain id item attests
    refine ⟨top, ⟨(lawful.coherent.superseded top).mpr active, last, found, kin⟩, ?_⟩
    rintro other ⟨free, old, found', kin'⟩
    by_contra ne
    exact (rest other old found' kin' ne).2 ((lawful.coherent.superseded other).mp free)

variable {source : CausalSourceEnvelope} {compilation : SidecarCompilation}
  {memory : StandaloneCausalMemory}

theorem Lawful.record (lawful : m.Lawful) (fit : m.Fitting compilation.facts)
    (grown : m.memory.Grown source (compilation.facts.map fun item => item.fact) memory) :
    (m.record source compilation memory).Lawful where
  coherent := lawful.coherent.record fit grown
  stored := by
    intro key population found
    have claimed (was : (m.completeness.get key).isSome) :
        ((m.record source compilation memory).completeness.get key).isSome := by
      rw [Option.isSome_iff_ne_none] at was ⊢
      exact fun none => was (Dict.get_update_eq_none.mp none).1
    rcases Dict.get_update_eq_some found with touched | before
    · obtain ⟨touching, member, same⟩ := List.mem_map.mp touched
      cases same
      rcases List.mem_append.mp (List.mem_dedup.mp member) with fact | claim
      · obtain ⟨item, brought, same⟩ := List.mem_map.mp fact
        refine .inl ⟨item.fact.factId, item, ?_⟩
        have attests : (m.record source compilation memory).Attests item.fact.factId item :=
          (attests_record fit).mpr (.inl ⟨brought, rfl⟩)
        exact (lawful.coherent.get_prospective fit).mpr ⟨attests, same⟩
      · refine .inr (Option.isSome_iff_ne_none.mpr fun none => ?_)
        refine (Dict.get_update_eq_none.mp none).2 ?_
        rw [List.map_map]
        exact claim
    · exact (lawful.stored key population before).imp_right claimed
  rising := by
    intro old new superseded
    rcases Dict.get_update_eq_some superseded with pending | before
    · obtain ⟨item, member, named⟩ := List.mem_flatMap.mp pending
      by_cases known : m.attested item = true
      · rw [if_pos known] at named
        cases named
      · rw [if_neg known] at named
        obtain ⟨id, previous, same⟩ := List.mem_map.mp named
        cases same
        have fresh : ¬ m.Attests item.fact.factId item := by
          simpa [attested, Attests] using known
        obtain ⟨a, attests, kin, active⟩ := lawful.coherent.mem_previous.mp previous
        have below := (lawful.coherent.lineage_of_fresh fit member fresh).2 _ a attests kin active
        exact ⟨a, item, (attests_record fit).mpr (.inr attests),
          (attests_record fit).mpr (.inl ⟨member, rfl⟩), kin, below⟩
    · obtain ⟨a, b, attests, attests', kin, below⟩ := lawful.rising old new before
      exact ⟨a, b, (attests_record fit).mpr (.inr attests),
        (attests_record fit).mpr (.inr attests'), kin, below⟩

theorem Published.grown {δ : Type} {batch : CausalAdapterBatch δ} {state : IngestState}
    (sealing : CausalSourceEnvelope.sealed c batch.sourceId batch.content = .ok source)
    (published : Published c m batch source compilation state memory) :
    m.memory.Grown source (compilation.facts.map fun item => item.fact) memory := by
  cases published with
  | facts some_fact ingested outcome good =>
    exact StandaloneCausalMemory.grown_of_ingest ingested (outcome ▸ good) sealing
  | claims no_fact sameSource outcome =>
    rw [no_fact]
    exact ⟨rfl, rfl, fun id f => by simp, nofun, fun _ _ found => .inr found, nofun,
      fun id known found => ⟨known, found, rfl⟩⟩

variable {receipt : SidecarIngestReceipt}

theorem ingest_eq_self {δ : Type} {adapter : SidecarIngestAdapter δ} {batch : CausalAdapterBatch δ}
    (h : m.ingest c adapter batch = .ok (receipt, m')) (refused : ¬ receipt.state.Taken) :
    m' = m := by
  unfold ingest at h
  cases admitted : m.screen c adapter batch with
  | error refusal =>
    rw [admitted] at h
    cases h
    rfl
  | ok admission =>
    obtain ⟨authority, source, compilation⟩ := admission
    rw [admitted] at h
    simp only at h
    cases screened : m.refuse c authority source compilation with
    | some refusal =>
      rw [screened] at h
      cases h
      rfl
    | none =>
      simp only [screened, bind_eq_ok, pure_eq_ok, Prod.mk.injEq, Prod.exists] at h
      obtain ⟨outcome, after, published, rfl, rfl⟩ := h
      unfold publish at published
      split at published
      · simp only [bind_eq_ok, Prod.exists] at published
        obtain ⟨core, memory, ingested, rest⟩ := published
        split at rest
        · rename_i good
          cases rest
          exact absurd good refused
        · cases rest
          rfl
      · split at published
        · cases published
          rfl
        · cases published
          exact absurd (by unfold done IngestState.Taken; split <;> simp) refused

theorem Lawful.ingest {δ : Type} {adapter : SidecarIngestAdapter δ} {batch : CausalAdapterBatch δ}
    (lawful : m.Lawful) (h : m.ingest c adapter batch = .ok (receipt, m')) : m'.Lawful := by
  by_cases taken : receipt.state.Taken
  · obtain ⟨authority, source, compilation, memory, admitted, fit, published, rfl⟩ :=
      of_ingest h taken
    exact lawful.record fit.fitting (published.grown admitted.sealing)
  · rw [ingest_eq_self h taken]
    exact lawful

theorem Lawful.published (lawful : m.Lawful) (executor : Option TypedCausalExecutor)
    (core deferred : Bool) : Lawful { m with
      memory := { m.memory with executor, deferPublication := core }
      deferPublication := deferred } where
  coherent := ⟨lawful.coherent.ids, lawful.coherent.keys, lawful.coherent.superseded,
    lawful.coherent.facts, lawful.coherent.scope, lawful.coherent.sameScope,
    lawful.coherent.causes, lawful.coherent.lineage, lawful.coherent.chain⟩
  stored := lawful.stored
  rising := lawful.rising

theorem Lawful.fork (lawful : m.Lawful) : m.fork.Lawful :=
  lawful.published m.memory.executor false false

theorem of_finalizePublication (h : m.finalizePublication = .ok m') :
    ∃ executor core, m' = { m with
      memory := { m.memory with executor, deferPublication := core }
      deferPublication := false } := by
  unfold finalizePublication at h
  split at h
  · simp only [bind_eq_ok, pure_eq_ok] at h
    obtain ⟨memory, built, rfl⟩ := h
    unfold StandaloneCausalMemory.finalizePublication at built
    split at built
    · split at built
      · cases built
        exact ⟨_, _, rfl⟩
      · simp only [bind_eq_ok, pure_eq_ok] at built
        obtain ⟨executor, -, rfl⟩ := built
        exact ⟨_, _, rfl⟩
    · cases built
      exact ⟨_, _, rfl⟩
  · rename_i immediate
    cases h
    refine ⟨m.memory.executor, m.memory.deferPublication, ?_⟩
    rw [← eq_false_of_ne_true immediate]

theorem Lawful.finalized (lawful : m.Lawful) (h : m.finalizePublication = .ok m') : m'.Lawful := by
  obtain ⟨executor, core, rfl⟩ := of_finalizePublication h
  exact lawful.published executor core false

theorem lawful_of_make {scope : String} {authorities : List SidecarAuthority}
    {limits : SidecarLimits} {deferred : Bool}
    (made : make c scope authorities limits deferred = .ok m) : m.Lawful := by
  simp only [make, bind_eq_ok, require_eq_ok, pure_eq_ok] at made
  obtain ⟨-, -, -, -, -, -, -, -, -, -, -, -, rfl⟩ := made
  refine ⟨coherent_of_empty rfl rfl rfl rfl rfl, fun key population found => ?_,
    fun old new superseded => ?_⟩
  · cases found
  · cases superseded

end AuthorizedSidecarMemory

end ProofRay.Sidecar
