/- Authorised memories as objects that hold their dictionaries by reference. A fork shares what it
   does not copy, and each object still reads what the memory of its own batches reads. -/

import ProofRay.Lib.Slots
import ProofRay.Sidecar.IndexLaw

namespace ProofRay.Sidecar

open Engine (Crypto PyError stdCrypto)
open Lib (Dict Machine)
open Lib.CowShards (objectAt)
open Lib.Guard
open Lib.Slots

/-- A dictionary in memory; the index maps a key to the address of its population. -/
inductive Cell where
  | facts (d : Dict Nat TypedCausalFact)
  | sources (d : Dict String CausalSourceEnvelope)
  | attestations (d : Dict Nat AttestedSidecarFact)
  | completeness (d : Dict Key AttestedCompletenessClaim)
  | supersededBy (d : Dict Nat Nat)
  | factsByKey (d : Dict Key Nat)

namespace Cell

def blank : Cell := .facts .empty

def asFacts : Cell → Dict Nat TypedCausalFact
  | .facts d => d
  | _ => .empty

def asSources : Cell → Dict String CausalSourceEnvelope
  | .sources d => d
  | _ => .empty

def asAttestations : Cell → Dict Nat AttestedSidecarFact
  | .attestations d => d
  | _ => .empty

def asCompleteness : Cell → Dict Key AttestedCompletenessClaim
  | .completeness d => d
  | _ => .empty

def asSupersededBy : Cell → Dict Nat Nat
  | .supersededBy d => d
  | _ => .empty

def asFactsByKey : Cell → Dict Key Nat
  | .factsByKey d => d
  | _ => .empty

end Cell

/-- The dictionaries an authorised memory holds, its causal memory's first. -/
inductive Part where
  | facts
  | factSources
  | attestations
  | factsByKey
  | sources
  | completeness
  | supersededBy
  deriving DecidableEq, Repr

def Part.all : List Part :=
  [.facts, .factSources, .attestations, .factsByKey, .sources, .completeness, .supersededBy]

theorem Part.mem_all (part : Part) : part ∈ Part.all := by
  cases part <;> decide

/-- An `AuthorizedSidecarMemory` with its `StandaloneCausalMemory`: what it holds by value and the
addresses of its dictionaries. -/
structure SidecarObject where
  scope : String
  purpose : String
  authorities : List SidecarAuthority
  limits : SidecarLimits
  deferPublication : Bool
  coreScope : String
  coreExecutor : Option TypedCausalExecutor
  coreDeferPublication : Bool
  held : Part → Nat

namespace SidecarObject

variable (c : Crypto) (heap : List Cell) (o : SidecarObject)

def part (part : Part) : Cell := view Cell.blank ⟨heap, o.held⟩ part

def population (a : Nat) : Dict Nat AttestedSidecarFact :=
  (objectAt Cell.blank heap a).asAttestations

def read : AuthorizedSidecarMemory where
  scope := o.scope
  purpose := o.purpose
  authorities := o.authorities
  limits := o.limits
  memory :=
    { scope := o.coreScope
      facts := (o.part heap .facts).asFacts
      sources := (o.part heap .factSources).asSources
      executor := o.coreExecutor
      deferPublication := o.coreDeferPublication }
  deferPublication := o.deferPublication
  attestations := (o.part heap .attestations).asAttestations
  sources := (o.part heap .sources).asSources
  completeness := (o.part heap .completeness).asCompleteness
  supersededBy := (o.part heap .supersededBy).asSupersededBy
  factsByKey := mapValues (population heap) (o.part heap .factsByKey).asFactsByKey

/-- `d.update(..)` on an unpublished memory, `d = {**d, ..}` otherwise. -/
def mode (deferred : Bool) : Mode := if deferred then .inPlace else .replaced

/-- What `StandaloneCausalMemory.ingest` reports, writes and indexes. -/
def coreIngest {δ : Type} (m : StandaloneCausalMemory) (batch : CausalAdapterBatch δ)
    (proposed : List TypedCausalFact) :
    Except PyError (Refusal × List (Part × Mode × Cell) × Option TypedCausalExecutor) :=
  match m.screen c batch proposed with
  | .error outcome => .ok (outcome, [], m.executor)
  | .ok source => do
    let facts := m.facts.update ((m.novel proposed).map fun f => (f.factId, f))
    let executor ← m.reindex facts
    return (⟨.applied, (m.novel proposed).map fun f => f.factId,
      "batch atomically committed and query index published"⟩,
      [(.facts, mode m.deferPublication, .facts facts),
        (.factSources, .inPlace, .sources (m.sources.set source.sourceId source))], executor)

def touched (compilation : SidecarCompilation) : List Key :=
  ((compilation.facts.map fun item => item.fact.key) ++
    compilation.completenessClaims.map fun claim => claim.key).dedup

def populations (m : AuthorizedSidecarMemory) (compilation : SidecarCompilation) : List Cell :=
  (touched compilation).map fun key => .attestations (m.prospective compilation.facts key)

def recordWrites (m : AuthorizedSidecarMemory) (index : Dict Key Nat) (fresh : Nat)
    (source : CausalSourceEnvelope) (compilation : SidecarCompilation) :
    List (Part × Mode × Cell) :=
  [(.attestations, mode m.deferPublication, .attestations
      (m.attestations.update (compilation.facts.map fun item => (item.fact.factId, item)))),
    (.factsByKey, mode m.deferPublication, .factsByKey
      (index.update ((touched compilation).zipIdx.map fun e => (e.1, fresh + e.2)))),
    (.sources, .inPlace, .sources (m.sources.set source.sourceId source)),
    (.completeness, mode m.deferPublication, .completeness
      (m.completeness.update (compilation.completenessClaims.map fun claim => (claim.key, claim)))),
    (.supersededBy, mode m.deferPublication, .supersededBy
      (m.supersededBy.update (m.pendingSuperseded compilation.facts)))]

def record (source : CausalSourceEnvelope) (compilation : SidecarCompilation)
    (core : List (Part × Mode × Cell)) (executor : Option TypedCausalExecutor) :
    List Cell × SidecarObject :=
  let m := o.read heap
  let s := writes ⟨heap ++ populations m compilation, o.held⟩ (core ++
    recordWrites m (o.part heap .factsByKey).asFactsByKey heap.length source compilation)
  (s.heap, { o with coreExecutor := executor, held := s.held })

def publish {δ : Type} (source : CausalSourceEnvelope) (compilation : SidecarCompilation)
    (batch : CausalAdapterBatch δ) : Except PyError (Refusal × List Cell × SidecarObject) :=
  let m := o.read heap
  if compilation.facts ≠ [] then do
    let (core, written, executor) ←
      coreIngest c m.memory batch (compilation.facts.map fun item => item.fact)
    if core.state = .applied ∨ core.state = .idempotent then
      return (AuthorizedSidecarMemory.done core.state core.factIds,
        o.record heap source compilation written executor)
    else return (core, heap, o)
  else if (m.sources.get source.sourceId).any fun known => known.sha256 ≠ source.sha256 then
    .ok (⟨.rejectedSourceCollision, [],
      "source identity is immutable across completeness batches"⟩, heap, o)
  else
    let identical := compilation.completenessClaims ≠ [] ∧
      ∀ claim ∈ compilation.completenessClaims, m.completeness.get claim.key = some claim
    .ok (AuthorizedSidecarMemory.done (if identical then .idempotent else .applied) [],
      o.record heap source compilation [] o.coreExecutor)

/-- `ingest`. -/
def ingest {δ : Type} (adapter : SidecarIngestAdapter δ) (batch : CausalAdapterBatch δ) :
    Except PyError (SidecarIngestReceipt × List Cell × SidecarObject) :=
  let m := o.read heap
  match m.screen c adapter batch with
  | .error receipt => .ok (receipt, heap, o)
  | .ok (authority, source, compilation) =>
    let report (r : Refusal) : SidecarIngestReceipt :=
      ⟨r.state, authority.adapterId, authority.sha256 c, r.factIds, source.sha256, r.reason⟩
    match m.refuse c authority source compilation with
    | some refusal => .ok (report refusal, heap, o)
    | none => do
      let (outcome, heap, o) ← o.publish c heap source compilation batch
      return (report outcome, heap, o)

/-- `_fork_for_atomic_update`: a copy of every dictionary, and the populations of the index as
they are. -/
def fork : List Cell × SidecarObject :=
  let s := allot heap Part.all (o.part heap)
  (s.heap, { o with deferPublication := false, coreDeferPublication := false, held := s.held })

/-- `_finalize_publication`. -/
def finalizePublication : Except PyError SidecarObject := do
  let m ← (o.read heap).finalizePublication
  return { o with
    deferPublication := m.deferPublication
    coreExecutor := m.memory.executor
    coreDeferPublication := m.memory.deferPublication }

/-- `AuthorizedSidecarMemory(..)`. -/
def make (scope : String) (authorities : List SidecarAuthority) (limits : SidecarLimits)
    (deferPublication : Bool) : Except PyError (List Cell × SidecarObject) := do
  let m ← AuthorizedSidecarMemory.make c scope authorities limits deferPublication
  let s := allot heap Part.all fun part =>
    match part with
    | .facts => .facts .empty
    | .factSources => .sources .empty
    | .attestations => .attestations .empty
    | .factsByKey => .factsByKey .empty
    | .sources => .sources .empty
    | .completeness => .completeness .empty
    | .supersededBy => .supersededBy .empty
  return (s.heap, ⟨m.scope, m.purpose, m.authorities, m.limits, m.deferPublication, m.memory.scope,
    m.memory.executor, m.memory.deferPublication, s.held⟩)

variable {heap : List Cell} {o : SidecarObject}

theorem read_congr {heap' : List Cell}
    (same : view Cell.blank ⟨heap', o.held⟩ = view Cell.blank ⟨heap, o.held⟩)
    (populations : ∀ key a, (o.part heap .factsByKey).asFactsByKey.get key = some a →
      objectAt Cell.blank heap' a = objectAt Cell.blank heap a) : o.read heap' = o.read heap := by
  have parts (p : Part) : o.part heap' p = o.part heap p := congrFun same p
  have index : mapValues (population heap') (o.part heap .factsByKey).asFactsByKey =
      mapValues (population heap) (o.part heap .factsByKey).asFactsByKey :=
    mapValues_congr fun e member => by
      rw [population, population, populations e.1 e.2 ((Dict.get_eq_some_iff _ _ _).mpr member)]
  simp only [read, parts, index]

variable {holders : List (Part → Nat)} {n : Nat}

def Frozen (heap : List Cell) (holders : List (Part → Nat)) (o : SidecarObject) : Prop :=
  ∀ key a, (o.part heap .factsByKey).asFactsByKey.get key = some a → Loose heap holders a

/-- What a call does to the heap and to the object it is made on: it may add populations, and it
writes to no dictionary of anyone else. -/
structure Wrote (heap : List Cell) (o : SidecarObject) (heap' : List Cell) (o' : SidecarObject) :
    Prop where
  keeps : ∃ fresh, Keeps Cell.blank ⟨heap ++ fresh, o.held⟩ ⟨heap', o'.held⟩
  own : (⟨heap', o'.held⟩ : Holding Part Cell).Own
  index : ∀ key a, (o'.part heap' .factsByKey).asFactsByKey.get key = some a →
    (o.part heap .factsByKey).asFactsByKey.get key = some a ∨
      (heap.length ≤ a ∧ a < heap'.length ∧ ∀ part, o'.held part ≠ a)

theorem wrote_refl (own : (⟨heap, o.held⟩ : Holding Part Cell).Own) : Wrote heap o heap o where
  keeps := ⟨[], by rw [List.append_nil]; exact Keeps.refl _⟩
  own := own
  index _ _ found := .inl found

/-- What a causal memory writes when it takes a batch. -/
inductive CoreWrites (m : StandaloneCausalMemory) :
    List (Part × Mode × Cell) → Option TypedCausalExecutor → StandaloneCausalMemory → Prop
  | nothing : CoreWrites m [] m.executor m
  | facts (facts : Dict Nat TypedCausalFact) (sources : Dict String CausalSourceEnvelope)
      (executor : Option TypedCausalExecutor) (how : Mode) :
      CoreWrites m [(.facts, how, .facts facts), (.factSources, .inPlace, .sources sources)]
        executor { m with facts, sources, executor }

variable {c : Crypto}

theorem coreIngest_eq {δ : Type} (m : StandaloneCausalMemory) (batch : CausalAdapterBatch δ)
    (proposed : List TypedCausalFact) :
    (∃ e, coreIngest c m batch proposed = .error e ∧ m.ingest c batch proposed = .error e) ∨
    ∃ outcome written executor memory,
      coreIngest c m batch proposed = .ok (outcome, written, executor) ∧
      m.ingest c batch proposed = .ok (outcome, memory) ∧ CoreWrites m written executor memory := by
  unfold coreIngest StandaloneCausalMemory.ingest
  cases m.screen c batch proposed with
  | error outcome => exact .inr ⟨outcome, [], m.executor, m, rfl, rfl, .nothing⟩
  | ok source =>
    simp only [StandaloneCausalMemory.commit]
    cases m.reindex (m.facts.update ((m.novel proposed).map fun f => (f.factId, f))) with
    | error e => exact .inl ⟨e, rfl, rfl⟩
    | ok executor => exact .inr ⟨_, _, executor, _, rfl, rfl, .facts _ _ _ _⟩

section

variable {source : CausalSourceEnvelope} {compilation : SidecarCompilation}
  {written : List (Part × Mode × Cell)} {executor : Option TypedCausalExecutor}
  {memory : StandaloneCausalMemory}

variable (source compilation) in
theorem parts_record (own : (⟨heap, o.held⟩ : Holding Part Cell).Own)
    (core : CoreWrites (o.read heap).memory written executor memory) :
    let after := (o.read heap).record source compilation memory
    let out := o.record heap source compilation written executor
    (out.2.part out.1 .facts).asFacts = after.memory.facts ∧
    (out.2.part out.1 .factSources).asSources = after.memory.sources ∧
    (out.2.part out.1 .attestations).asAttestations = after.attestations ∧
    (out.2.part out.1 .sources).asSources = after.sources ∧
    (out.2.part out.1 .completeness).asCompleteness = after.completeness ∧
    (out.2.part out.1 .supersededBy).asSupersededBy = after.supersededBy ∧
    (out.2.part out.1 .factsByKey).asFactsByKey = (o.part heap .factsByKey).asFactsByKey.update
      ((touched compilation).zipIdx.map fun e => (e.1, heap.length + e.2)) := by
  have grown : (⟨heap ++ populations (o.read heap) compilation, o.held⟩ : Holding Part Cell).Own :=
    ⟨fun p => (own.inside p).trans_le (by simp), own.apart⟩
  have before : view Cell.blank ⟨heap ++ populations (o.read heap) compilation, o.held⟩ =
      view Cell.blank ⟨heap, o.held⟩ :=
    funext fun p => Lib.CowShards.objectAt_append_left _ _ _ (own.inside p)
  have read (p : Part) := congrFun ((view_writes Cell.blank grown (written ++
    recordWrites (o.read heap) (o.part heap .factsByKey).asFactsByKey heap.length source
      compilation)).trans (by rw [before])) p
  cases core with
  | nothing =>
    exact ⟨congrArg Cell.asFacts (read .facts), congrArg Cell.asSources (read .factSources),
      congrArg Cell.asAttestations (read .attestations), congrArg Cell.asSources (read .sources),
      congrArg Cell.asCompleteness (read .completeness),
      congrArg Cell.asSupersededBy (read .supersededBy),
      congrArg Cell.asFactsByKey (read .factsByKey)⟩
  | facts =>
    exact ⟨congrArg Cell.asFacts (read .facts), congrArg Cell.asSources (read .factSources),
      congrArg Cell.asAttestations (read .attestations), congrArg Cell.asSources (read .sources),
      congrArg Cell.asCompleteness (read .completeness),
      congrArg Cell.asSupersededBy (read .supersededBy),
      congrArg Cell.asFactsByKey (read .factsByKey)⟩

variable (source compilation) in
theorem wrote_record (own : (⟨heap, o.held⟩ : Holding Part Cell).Own)
    (core : CoreWrites (o.read heap).memory written executor memory) :
    Wrote heap o (o.record heap source compilation written executor).1
      (o.record heap source compilation written executor).2 := by
  have grown : (⟨heap ++ populations (o.read heap) compilation, o.held⟩ : Holding Part Cell).Own :=
    ⟨fun p => (own.inside p).trans_le (by simp), own.apart⟩
  have keeps := keeps_writes Cell.blank
    ⟨heap ++ populations (o.read heap) compilation, o.held⟩ (written ++
      recordWrites (o.read heap) (o.part heap .factsByKey).asFactsByKey heap.length source
        compilation)
  refine ⟨⟨_, keeps⟩, grown.writes _, fun key a found => ?_⟩
  have index := (parts_record source compilation own core).2.2.2.2.2.2
  rw [index] at found
  rcases Dict.get_update_eq_some found with fresh | old
  · obtain ⟨⟨key', i⟩, member, same⟩ := List.mem_map.mp fresh
    cases same
    have bound : i < (touched compilation).length := by
      have := List.snd_lt_of_mem_zipIdx member
      omega
    have inside : heap.length + i < (heap ++ populations (o.read heap) compilation).length := by
      simp [populations]
      omega
    refine .inr ⟨Nat.le_add_right _ _, inside.trans_le keeps.grows, fun p same => ?_⟩
    rcases keeps.held p with kept | new
    · have below : o.held p < heap.length := own.inside p
      exact absurd (same.symm.trans kept : heap.length + i = o.held p) (by omega)
    · exact absurd (new.trans same.le) (not_le.mpr inside)
  · exact .inl old

variable (apart : Separate heap holders) (found : holders[n]? = some o.held) {heap' : List Cell}
  {o' : SidecarObject} (wrote : Wrote heap o heap' o')

include apart found wrote

theorem Wrote.apart_set : Separate heap' (holders.set n o'.held) := by
  obtain ⟨fresh, keeps⟩ := wrote.keeps
  exact (apart.append fresh).set found keeps wrote.own

theorem Wrote.loose {a : Nat} (loose : Loose heap holders a) :
    Loose heap' (holders.set n o'.held) a ∧
      objectAt Cell.blank heap' a = objectAt Cell.blank heap a := by
  obtain ⟨fresh, keeps⟩ := wrote.keeps
  obtain ⟨after, same⟩ := (loose.append fresh).set (apart.append fresh) found keeps
  exact ⟨after, same.trans (Lib.CowShards.objectAt_append_left _ _ _ loose.inside)⟩

theorem Wrote.read_other {m : Nat} {other : SidecarObject} (there : holders[m]? = some other.held)
    (ne : m ≠ n) (frozen : Frozen heap holders other) : other.read heap' = other.read heap ∧
      Frozen heap' (holders.set n o'.held) other := by
  obtain ⟨fresh, keeps⟩ := wrote.keeps
  have same : view Cell.blank ⟨heap', other.held⟩ = view Cell.blank ⟨heap, other.held⟩ :=
    ((apart.append fresh).view_other found keeps there ne).trans
      (view_append apart fresh (List.mem_of_getElem? there))
  refine ⟨read_congr same fun key a held =>
    (wrote.loose apart found (frozen key a held)).2, fun key a held => ?_⟩
  have held : (other.part heap .factsByKey).asFactsByKey.get key = some a := by
    rwa [part, same] at held
  exact (wrote.loose apart found (frozen key a held)).1

theorem Wrote.frozen (frozen : Frozen heap holders o) :
    Frozen heap' (holders.set n o'.held) o' := by
  intro key a held
  rcases wrote.index key a held with old | ⟨fresh, inside, free⟩
  · exact (wrote.loose apart found (frozen key a old)).1
  · refine ⟨inside, fun held' member p same => ?_⟩
    obtain ⟨m, holder⟩ := List.getElem?_of_mem member
    by_cases here : n = m
    · subst here
      rw [List.getElem?_set_self (List.getElem?_eq_some_iff.mp found).1,
        Option.some.injEq] at holder
      exact free p (by rw [holder]; exact same)
    · rw [List.getElem?_set_ne here] at holder
      have := apart.inside held' (List.mem_of_getElem? holder) p
      omega

omit wrote in
variable (source compilation) in
theorem populations_record (frozen : Frozen heap holders o)
    (core : CoreWrites (o.read heap).memory written executor memory) :
    mapValues (population (o.record heap source compilation written executor).1)
        ((o.part heap .factsByKey).asFactsByKey.update
          ((touched compilation).zipIdx.map fun e => (e.1, heap.length + e.2))) =
      ((o.read heap).record source compilation memory).factsByKey := by
  have wrote := wrote_record source compilation (apart.own found) core
  have old : mapValues (population (o.record heap source compilation written executor).1)
      (o.part heap .factsByKey).asFactsByKey =
        mapValues (population heap) (o.part heap .factsByKey).asFactsByKey :=
    mapValues_congr fun e member => by
      have held := frozen e.1 e.2 ((Dict.get_eq_some_iff _ _ _).mpr member)
      rw [population, population, (wrote.loose apart found held).2]
  have new : ((touched compilation).zipIdx.map fun e => (e.1, heap.length + e.2)).map (fun e =>
      (e.1, population (o.record heap source compilation written executor).1 e.2)) =
        (touched compilation).map fun key =>
          (key, (o.read heap).prospective compilation.facts key) := by
    refine List.ext_getElem (by simp) fun i inside _ => ?_
    simp only [List.length_map, List.length_zipIdx] at inside
    have bound : i < (populations (o.read heap) compilation).length := by simpa [populations]
    have loose := apart.loose_append bound
    have keeps := keeps_writes Cell.blank
      ⟨heap ++ populations (o.read heap) compilation, o.held⟩ (written ++
        recordWrites (o.read heap) (o.part heap .factsByKey).asFactsByKey heap.length source
          compilation)
    have filled := (loose.set (apart.append _) found keeps).2
    have here : objectAt Cell.blank (heap ++ populations (o.read heap) compilation)
        (heap.length + i) = .attestations ((o.read heap).prospective compilation.facts
          (touched compilation)[i]) := by
      simp [objectAt, populations, inside]
    simp only [List.getElem_map, List.getElem_zipIdx, Nat.zero_add]
    rw [population, show objectAt Cell.blank (o.record heap source compilation written executor).1
      (heap.length + i) = _ from filled.trans here]
    rfl
  rw [mapValues_update, old, new]
  rfl

omit wrote in
theorem read_record (frozen : Frozen heap holders o)
    (core : CoreWrites (o.read heap).memory written executor memory) :
    (o.record heap source compilation written executor).2.read
        (o.record heap source compilation written executor).1 =
      (o.read heap).record source compilation memory := by
  have own := apart.own found
  obtain ⟨facts, factSources, attestations, sources, completeness, supersededBy, index⟩ :=
    parts_record source compilation own core
  have plain : memory = ⟨o.coreScope, memory.facts, memory.sources, executor,
      o.coreDeferPublication⟩ := by
    cases core <;> rfl
  have populations := populations_record source compilation apart found frozen core
  rw [← index] at populations
  show AuthorizedSidecarMemory.mk o.scope o.purpose o.authorities o.limits _ o.deferPublication
    _ _ _ _ _ = AuthorizedSidecarMemory.mk o.scope o.purpose o.authorities o.limits memory
      o.deferPublication _ _ _ _ _
  rw [attestations, sources, completeness, supersededBy, populations, plain]
  show AuthorizedSidecarMemory.mk _ _ _ _ (StandaloneCausalMemory.mk o.coreScope _ _ executor
    o.coreDeferPublication) _ _ _ _ _ _ = _
  rw [facts, factSources]
  rfl

end

/-- A call answers as the memory the object reads does, and the object then reads the memory the
call leaves. -/
inductive Agrees {ρ : Type} (heap : List Cell) (o : SidecarObject) :
    Except PyError (ρ × List Cell × SidecarObject) →
      Except PyError (ρ × AuthorizedSidecarMemory) → Prop
  | raised (e : PyError) : Agrees heap o (.error e) (.error e)
  | answered {heap' : List Cell} {o' : SidecarObject} (answer : ρ)
      (wrote : Wrote heap o heap' o') :
      Agrees heap o (.ok (answer, heap', o')) (.ok (answer, o'.read heap'))

section

variable (apart : Separate heap holders) (found : holders[n]? = some o.held)
  (frozen : Frozen heap holders o) {δ : Type}

include apart found frozen

theorem publish_agrees (source : CausalSourceEnvelope) (compilation : SidecarCompilation)
    (batch : CausalAdapterBatch δ) : Agrees heap o (o.publish c heap source compilation batch)
      ((o.read heap).publish c source compilation batch) := by
  have own := apart.own found
  have same := wrote_refl own
  unfold publish AuthorizedSidecarMemory.publish
  simp only
  by_cases facts : compilation.facts ≠ []
  · rw [if_pos facts, if_pos facts]
    rcases coreIngest_eq (c := c) (o.read heap).memory batch
        (compilation.facts.map fun item => item.fact) with
      ⟨e, raised, raised'⟩ | ⟨outcome, written, executor, memory, answered, answered', core⟩
    · rw [raised, raised']
      exact .raised e
    · rw [answered, answered', ok_bind, ok_bind]
      simp only
      by_cases taken : outcome.state = .applied ∨ outcome.state = .idempotent
      · rw [if_pos taken, if_pos taken, ← read_record apart found frozen core]
        exact .answered _ (wrote_record source compilation own core)
      · rw [if_neg taken, if_neg taken]
        exact .answered _ same
  · rw [if_neg facts, if_neg facts]
    by_cases collides : ((o.read heap).sources.get source.sourceId).any fun known =>
        known.sha256 ≠ source.sha256
    · rw [if_pos collides, if_pos collides]
      exact .answered _ same
    · have core : CoreWrites (o.read heap).memory [] o.coreExecutor (o.read heap).memory := .nothing
      rw [if_neg collides, if_neg collides, ← read_record apart found frozen core]
      exact .answered _ (wrote_record source compilation own core)

theorem ingest_agrees (adapter : SidecarIngestAdapter δ) (batch : CausalAdapterBatch δ) :
    Agrees heap o (o.ingest c heap adapter batch) ((o.read heap).ingest c adapter batch) := by
  have same := wrote_refl (apart.own found)
  unfold ingest AuthorizedSidecarMemory.ingest
  simp only
  cases (o.read heap).screen c adapter batch with
  | error receipt => exact .answered _ same
  | ok admission =>
    obtain ⟨authority, source, compilation⟩ := admission
    simp only
    cases (o.read heap).refuse c authority source compilation with
    | some refusal => exact .answered _ same
    | none =>
      have published := publish_agrees (c := c) apart found frozen source compilation batch
      generalize o.publish c heap source compilation batch = left at published
      generalize (o.read heap).publish c source compilation batch = right at published
      cases published with
      | raised e => exact .raised e
      | answered answer wrote => exact .answered _ wrote

end

variable {heap' : List Cell} {o' : SidecarObject}

theorem read_fork (frozen : Frozen heap holders o) :
    (o.fork heap).2.read (o.fork heap).1 = (o.read heap).fork := by
  have parts (p : Part) : (o.fork heap).2.part (o.fork heap).1 p = o.part heap p :=
    congrFun (view_allot Part.mem_all) p
  have index : mapValues (population (o.fork heap).1) (o.part heap .factsByKey).asFactsByKey =
      mapValues (population heap) (o.part heap .factsByKey).asFactsByKey :=
    mapValues_congr fun e member => by
      have held := frozen e.1 e.2 ((Dict.get_eq_some_iff _ _ _).mpr member)
      rw [population, population]
      exact congrArg Cell.asAttestations (Lib.CowShards.objectAt_append_left _ _ _ held.inside)
  rw [read]
  simp only [parts, index]
  rfl

theorem read_finalizePublication (h : o.finalizePublication heap = .ok o') :
    o'.held = o.held ∧ (o.read heap).finalizePublication = .ok (o'.read heap) := by
  simp only [finalizePublication, bind_eq_ok, pure_eq_ok] at h
  obtain ⟨m, published, rfl⟩ := h
  refine ⟨rfl, published.trans (congrArg Except.ok ?_)⟩
  obtain ⟨executor, core, rfl⟩ := AuthorizedSidecarMemory.of_finalizePublication published
  rfl

theorem read_make {scope : String} {authorities : List SidecarAuthority} {limits : SidecarLimits}
    {deferPublication : Bool}
    (h : make c heap scope authorities limits deferPublication = .ok (heap', o')) :
    ∃ cells, heap' = (allot heap Part.all cells).heap ∧ o'.held = (allot heap Part.all cells).held ∧
      (o'.part heap' .factsByKey).asFactsByKey = .empty ∧
      AuthorizedSidecarMemory.make c scope authorities limits deferPublication =
        .ok (o'.read heap') := by
  simp only [make, bind_eq_ok, pure_eq_ok, Prod.mk.injEq] at h
  obtain ⟨m, made, rfl, rfl⟩ := h
  refine ⟨_, rfl, rfl, ?_, made.trans (congrArg Except.ok ?_)⟩
  · exact congrArg Cell.asFactsByKey (congrFun (view_allot Part.mem_all) .factsByKey)
  · simp only [AuthorizedSidecarMemory.make, bind_eq_ok, require_eq_ok, pure_eq_ok] at made
    obtain ⟨-, -, -, -, -, -, -, -, -, -, -, -, rfl⟩ := made
    rw [read]
    simp only [part, view_allot Part.mem_all]
    rfl

end SidecarObject

/-- What a program does, with the numbers of the memories it holds. -/
inductive SidecarEvent (δ : Type) where
  | make (scope : String) (authorities : List SidecarAuthority) (limits : SidecarLimits)
      (deferPublication : Bool)
  | ingest (memory : Nat) (adapter : SidecarIngestAdapter δ) (batch : CausalAdapterBatch δ)
  | fork (memory : Nat)
  | finalize (memory : Nat)

def SidecarEvent.target {δ : Type} : SidecarEvent δ → Option Nat
  | .ingest n _ _ => some n
  | .finalize n => some n
  | _ => none

/-- The heap of a program and the memories it holds. -/
structure SidecarWorld where
  heap : List Cell
  objects : List SidecarObject

namespace SidecarWorld

def init : SidecarWorld := ⟨[], []⟩

variable (c : Crypto) {δ : Type}

def step (w : SidecarWorld) :
    SidecarEvent δ → Option (SidecarWorld × Except PyError (Option SidecarIngestReceipt))
  | .make scope authorities limits deferPublication =>
    match SidecarObject.make c w.heap scope authorities limits deferPublication with
    | .error e => some (w, .error e)
    | .ok (heap, o) => some (⟨heap, w.objects ++ [o]⟩, .ok none)
  | .ingest n adapter batch =>
    w.objects[n]?.map fun o =>
      match o.ingest c w.heap adapter batch with
      | .error e => (w, .error e)
      | .ok (receipt, heap, o) => (⟨heap, w.objects.set n o⟩, .ok (some receipt))
  | .fork n =>
    w.objects[n]?.map fun o =>
      let (heap, staged) := o.fork w.heap
      (⟨heap, w.objects ++ [staged]⟩, .ok none)
  | .finalize n =>
    w.objects[n]?.map fun o =>
      match o.finalizePublication w.heap with
      | .error e => (w, .error e)
      | .ok o => (⟨w.heap, w.objects.set n o⟩, .ok none)

def machine : Machine SidecarWorld (SidecarEvent δ)
    (Except PyError (Option SidecarIngestReceipt)) := ⟨step c⟩

def memory (w : SidecarWorld) (n : Nat) : Option AuthorizedSidecarMemory :=
  w.objects[n]?.map fun o => o.read w.heap

def holders (w : SidecarWorld) : List (Part → Nat) := w.objects.map SidecarObject.held

/-- No dictionary is held twice, no population is held at all, and every memory keeps the law of
its index. -/
structure Sound (w : SidecarWorld) : Prop where
  apart : Separate w.heap w.holders
  frozen : ∀ o ∈ w.objects, SidecarObject.Frozen w.heap w.holders o
  lawful : ∀ o ∈ w.objects, (o.read w.heap).Lawful

theorem sound_init : Sound init where
  apart := ⟨nofun, nofun⟩
  frozen := nofun
  lawful := nofun

variable {c} {w w' : SidecarWorld} {n : Nat} {o : SidecarObject}

theorem holders_found (found : w.objects[n]? = some o) : w.holders[n]? = some o.held := by
  simp [holders, found]

theorem Sound.set (sound : w.Sound) (found : w.objects[n]? = some o) {heap : List Cell}
    {o' : SidecarObject} (wrote : SidecarObject.Wrote w.heap o heap o')
    (lawful : (o'.read heap).Lawful) : Sound ⟨heap, w.objects.set n o'⟩ ∧
      ∀ m, m ≠ n → memory ⟨heap, w.objects.set n o'⟩ m = w.memory m := by
  have member := List.mem_of_getElem? found
  have held := holders_found found
  have holders_set : holders ⟨heap, w.objects.set n o'⟩ = w.holders.set n o'.held := List.map_set
  have other {m : Nat} {p : SidecarObject} (there : w.objects[m]? = some p) (ne : m ≠ n) :=
    wrote.read_other sound.apart held (holders_found there) ne
      (sound.frozen p (List.mem_of_getElem? there))
  have each {p : SidecarObject} (member : p ∈ w.objects.set n o') :
      p = o' ∨ ∃ m, m ≠ n ∧ w.objects[m]? = some p := by
    obtain ⟨m, there⟩ := List.getElem?_of_mem member
    by_cases same : n = m
    · subst same
      rw [List.getElem?_set_self (List.getElem?_eq_some_iff.mp found).1, Option.some.injEq] at there
      exact .inl there.symm
    · rw [List.getElem?_set_ne same] at there
      exact .inr ⟨m, Ne.symm same, there⟩
  refine ⟨⟨?_, ?_, ?_⟩, ?_⟩
  · rw [holders_set]
    exact wrote.apart_set sound.apart held
  · intro p member
    rw [holders_set]
    rcases each member with rfl | ⟨m, ne, there⟩
    · exact wrote.frozen sound.apart held (sound.frozen o (List.mem_of_getElem? found))
    · exact (other there ne).2
  · intro p member
    rcases each member with rfl | ⟨m, ne, there⟩
    · exact lawful
    · have same : p.read heap = p.read w.heap := (other there ne).1
      rw [same]
      exact sound.lawful p (List.mem_of_getElem? there)
  · intro m ne
    rw [memory, memory, List.getElem?_set_ne (Ne.symm ne)]
    cases there : w.objects[m]? with
    | none => rfl
    | some p => exact congrArg some (other there ne).1

theorem Sound.concat (sound : w.Sound) (cells : Part → Cell) (o' : SidecarObject)
    (held : o'.held = (allot w.heap Part.all cells).held)
    (frozen : ∀ key a, (o'.part (allot w.heap Part.all cells).heap .factsByKey).asFactsByKey.get
      key = some a → Loose w.heap w.holders a)
    (lawful : (o'.read (allot w.heap Part.all cells).heap).Lawful) :
    Sound ⟨(allot w.heap Part.all cells).heap, w.objects ++ [o']⟩ ∧
      ∀ m < w.objects.length,
        memory ⟨(allot w.heap Part.all cells).heap, w.objects ++ [o']⟩ m = w.memory m := by
  have holders_append : holders ⟨(allot w.heap Part.all cells).heap, w.objects ++ [o']⟩ =
      w.holders ++ [(allot w.heap Part.all cells).held] := by
    simp [holders, held]
  have same {p : SidecarObject} (member : p ∈ w.objects) :
      view Cell.blank ⟨(allot w.heap Part.all cells).heap, p.held⟩ =
        view Cell.blank ⟨w.heap, p.held⟩ :=
    view_append sound.apart _ (List.mem_map_of_mem member)
  have read {p : SidecarObject} (member : p ∈ w.objects) :
      p.read (allot w.heap Part.all cells).heap = p.read w.heap :=
    SidecarObject.read_congr (same member) fun key a found =>
      Lib.CowShards.objectAt_append_left _ _ _ (sound.frozen p member key a found).inside
  refine ⟨⟨?_, ?_, ?_⟩, ?_⟩
  · rw [holders_append]
    exact sound.apart.concat Part.mem_all
  · intro p member key a found
    rw [holders_append]
    rcases List.mem_append.mp member with old | new
    · rw [SidecarObject.part, same old] at found
      exact (sound.frozen p old key a found).concat
    · obtain rfl := List.mem_singleton.mp new
      exact (frozen key a found).concat
  · intro p member
    rcases List.mem_append.mp member with old | new
    · rw [show p.read (allot w.heap Part.all cells).heap = p.read w.heap from read old]
      exact sound.lawful p old
    · obtain rfl := List.mem_singleton.mp new
      exact lawful
  · intro m below
    have there := List.getElem?_eq_getElem below
    rw [memory, memory, List.getElem?_append_left below, there]
    exact congrArg some (read (List.getElem_mem below))

variable {e : SidecarEvent δ} {report : Except PyError (Option SidecarIngestReceipt)}

def Undisturbed (w w' : SidecarWorld) (e : SidecarEvent δ) : Prop :=
  ∀ m < w.objects.length, e.target ≠ some m → w'.memory m = w.memory m

theorem Sound.step (sound : w.Sound) (stepped : step c w e = some (w', report)) :
    w'.Sound ∧ Undisturbed w w' e := by
  cases e with
  | make scope authorities limits deferPublication =>
    simp only [SidecarWorld.step] at stepped
    cases made : SidecarObject.make c w.heap scope authorities limits deferPublication with
    | error raised =>
      rw [made] at stepped
      cases stepped
      exact ⟨sound, fun _ _ _ => rfl⟩
    | ok built =>
      obtain ⟨heap, o⟩ := built
      rw [made] at stepped
      cases stepped
      obtain ⟨cells, rfl, held, empty, new⟩ := SidecarObject.read_make made
      obtain ⟨after, same⟩ := sound.concat cells o held
        (fun key a found => by rw [empty] at found; cases found)
        (AuthorizedSidecarMemory.lawful_of_make new)
      exact ⟨after, fun m below _ => same m below⟩
  | ingest n adapter batch =>
    simp only [SidecarWorld.step, Option.map_eq_some_iff] at stepped
    obtain ⟨o, found, stepped⟩ := stepped
    have member := List.mem_of_getElem? found
    have lawful := sound.lawful o member
    have agrees := SidecarObject.ingest_agrees (c := c) sound.apart (holders_found found)
      (sound.frozen o member) adapter batch
    generalize o.ingest c w.heap adapter batch = left at agrees stepped
    generalize pure : (o.read w.heap).ingest c adapter batch = right at agrees
    cases agrees with
    | raised raised =>
      cases stepped
      exact ⟨sound, fun _ _ _ => rfl⟩
    | answered receipt wrote =>
      cases stepped
      obtain ⟨after, same⟩ := sound.set found wrote (lawful.ingest pure)
      exact ⟨after, fun m _ other => same m fun here => other (here ▸ rfl)⟩
  | fork n =>
    simp only [SidecarWorld.step, Option.map_eq_some_iff] at stepped
    obtain ⟨o, found, stepped⟩ := stepped
    cases stepped
    have frozen := sound.frozen o (List.mem_of_getElem? found)
    have forked : (o.fork w.heap).2.read (o.fork w.heap).1 = _ := SidecarObject.read_fork frozen
    have index : (o.fork w.heap).2.part (o.fork w.heap).1 .factsByKey = o.part w.heap .factsByKey :=
      congrFun (view_allot Part.mem_all) .factsByKey
    obtain ⟨after, same⟩ := sound.concat (o.part w.heap) (o.fork w.heap).2 rfl
      (fun key a held => frozen key a (by rw [← index]; exact held))
      (by
        show ((o.fork w.heap).2.read (o.fork w.heap).1).Lawful
        rw [forked]
        exact (sound.lawful o (List.mem_of_getElem? found)).fork)
    exact ⟨after, fun m below _ => same m below⟩
  | finalize n =>
    simp only [SidecarWorld.step, Option.map_eq_some_iff] at stepped
    obtain ⟨o, found, stepped⟩ := stepped
    cases published : o.finalizePublication w.heap with
    | error raised =>
      rw [published] at stepped
      cases stepped
      exact ⟨sound, fun _ _ _ => rfl⟩
    | ok o' =>
      rw [published] at stepped
      cases stepped
      obtain ⟨held, final⟩ := SidecarObject.read_finalizePublication published
      have refl := SidecarObject.wrote_refl (sound.apart.own (holders_found found))
      have wrote : SidecarObject.Wrote w.heap o w.heap o' := by
        refine ⟨by rw [held]; exact refl.keeps, by rw [held]; exact refl.own, ?_⟩
        intro key a here
        rw [SidecarObject.part, held] at here
        exact .inl here
      obtain ⟨after, same⟩ := sound.set found wrote
        ((sound.lawful o (List.mem_of_getElem? found)).finalized final)
      exact ⟨after, fun m _ other => same m fun here => other (here ▸ rfl)⟩

def noteEvents : List (SidecarEvent Unit) :=
  [.make "s" [noteAuthority] .default false, .fork 0,
    .ingest 1 ⟨none, fun _ => .error "no authority"⟩ noteBatch]

end SidecarWorld

end ProofRay.Sidecar
