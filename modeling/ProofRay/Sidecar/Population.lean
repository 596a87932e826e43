/- The population of a key: where the facts of each orbit form a chain of rising versions, the
   facts a key counts are exactly its active ones. -/

import ProofRay.Sidecar.Replay

namespace ProofRay.Sidecar

open Lib (Dict)
open Lib.Guard

variable {rows : List FactFields}

variable {top : FactFields}

private theorem leastId_of_all (some_row : rows ≠ []) (all : ∀ f ∈ rows, f = top) :
    leastId rows = some top := by
  induction rows with
  | nil => exact absurd rfl some_row
  | cons f rest ih =>
    obtain rfl : f = top := all f List.mem_cons_self
    by_cases last : rest = []
    · subst last
      rfl
    · rw [leastId, ih last fun g member => all g (List.mem_cons_of_mem f member)]
      exact if_pos (Nat.le_refl f.factId)

theorem settle_eq_some (member : top ∈ rows)
    (latest : ∀ f ∈ rows, f ≠ top → f.version < top.version) : settle rows = some top := by
  have alone : ∀ f ∈ latestRows rows, f = top := by
    intro f found
    obtain ⟨inRows, newest⟩ := List.mem_filter.mp found
    by_contra other
    have later := List.all_eq_true.mp newest top member
    simp [FactFields.later, latest f inRows other] at later
  have there : top ∈ latestRows rows := by
    refine List.mem_filter.mpr ⟨member, List.all_eq_true.mpr fun f inRows => ?_⟩
    by_cases same : f = top
    · simp [same, FactFields.later]
    · have below := latest f inRows same
      have notAbove : ¬ top.version < f.version := Nat.lt_asymm below
      simp [FactFields.later, notAbove, Nat.ne_of_gt below]
  have agree : ((latestRows rows).all fun f => (latestRows rows).all fun g =>
      f.signature = g.signature) = true := by
    refine List.all_eq_true.mpr fun f first => List.all_eq_true.mpr fun g second => ?_
    rw [alone f first, alone g second]
    exact decide_eq_true rfl
  simp only [settle, agree, if_true]
  exact leastId_of_all (List.ne_nil_of_mem there) alone

private theorem mapM_rows {f : String → Option FactFields} {names : List String}
    (each : ∀ name ∈ names, ∃ row, f name = some row ∧ row.orbit = name) :
    ∃ rows, names.mapM f = some rows ∧ rows.map FactFields.orbit = names ∧
      ∀ row, row ∈ rows ↔ ∃ name ∈ names, f name = some row := by
  induction names with
  | nil => exact ⟨[], rfl, rfl, fun row => by simp⟩
  | cons name names ih =>
    obtain ⟨row, found, orbit⟩ := each name List.mem_cons_self
    obtain ⟨rows, rest, order, mem⟩ := ih fun n member => each n (List.mem_cons_of_mem name member)
    refine ⟨row :: rows, by simp [List.mapM_cons, found, rest], by simp [orbit, order], ?_⟩
    intro row'
    simp [mem, found, eq_comm]

def Topmost (rows : List FactFields) (f : FactFields) : Prop :=
  ∀ g ∈ rows, g.orbit = f.orbit → g ≠ f → g.version < f.version

/-- The rows of a key in which every orbit has one topmost row, and no FactId comes twice. -/
structure Ranked (rows : List FactFields) : Prop where
  ids : (rows.map FactFields.factId).Nodup
  tops : ∀ f ∈ rows, ∃ top ∈ rows, top.orbit = f.orbit ∧ Topmost rows top

theorem latestOrbits_eq_some (ranked : Ranked rows) :
    ∃ selected, latestOrbits rows = some selected ∧ (selected.map FactFields.factId).Nodup ∧
      ∀ f, f ∈ selected ↔ f ∈ rows ∧ Topmost rows f := by
  have sorted (o : String) : o ∈ orbits rows ↔ ∃ f ∈ rows, f.orbit = o := by
    simp [orbits, (List.perm_insertionSort _ _).mem_iff]
  have settled : ∀ f ∈ rows, Topmost rows f →
      settle (rows.filter fun g => g.orbit = f.orbit) = some f := by
    intro f member topmost
    refine settle_eq_some (List.mem_filter.mpr ⟨member, decide_eq_true rfl⟩) ?_
    intro g inOrbit other
    obtain ⟨member', orbit⟩ := List.mem_filter.mp inOrbit
    exact topmost g member' (of_decide_eq_true orbit) other
  have each : ∀ name ∈ orbits rows, ∃ row,
      settle (rows.filter fun g => g.orbit = name) = some row ∧ row.orbit = name := by
    intro name member
    obtain ⟨f, inRows, rfl⟩ := (sorted name).mp member
    obtain ⟨top, member', orbit, topmost⟩ := ranked.tops f inRows
    exact ⟨top, orbit ▸ settled top member' topmost, orbit⟩
  obtain ⟨selected, found, order, mem⟩ := mapM_rows each
  have chosen : ∀ f, f ∈ selected ↔ f ∈ rows ∧ Topmost rows f := by
    intro f
    rw [mem]
    constructor
    · rintro ⟨name, member, row⟩
      obtain ⟨f', inRows, rfl⟩ := (sorted name).mp member
      obtain ⟨top, member', orbit, topmost⟩ := ranked.tops f' inRows
      have same : f = top := by
        have here := settled top member' topmost
        rw [orbit, row] at here
        exact Option.some.inj here
      exact same ▸ ⟨member', topmost⟩
    · rintro ⟨inRows, topmost⟩
      exact ⟨f.orbit, (sorted _).mpr ⟨f, inRows, rfl⟩, settled f inRows topmost⟩
  refine ⟨selected, found, ?_, chosen⟩
  have nodup : selected.Nodup := by
    refine List.Nodup.of_map FactFields.orbit ?_
    rw [order, orbits]
    exact (List.perm_insertionSort _ _).nodup_iff.mpr (List.nodup_dedup _)
  refine nodup.map_on ?_
  intro f first g second same
  exact List.inj_on_of_nodup_map ranked.ids ((chosen f).mp first).1 ((chosen g).mp second).1 same

theorem selectedPopulation_eq_some {facts : List FactFields} {subject predicate : String}
    {ids : List Nat} (ranked : Ranked (facts.filter fun f => f.key = (subject, predicate))) :
    selectedPopulation facts subject predicate = some ids ↔ Canonical ids ∧ ∀ id, id ∈ ids ↔
      ∃ f ∈ facts.filter fun f => f.key = (subject, predicate), f.factId = id ∧
        Topmost (facts.filter fun f => f.key = (subject, predicate)) f := by
  obtain ⟨selected, found, nodup, mem⟩ := latestOrbits_eq_some ranked
  let population := (selected.map FactFields.factId).insertionSort (· ≤ ·)
  have canonical : Canonical population := by
    have sorted : population.Pairwise (· ≤ ·) := List.pairwise_insertionSort _ _
    have distinct : population.Nodup := (List.perm_insertionSort _ _).nodup_iff.mpr nodup
    exact (sorted.and distinct).imp fun h => Nat.lt_of_le_of_ne h.1 h.2
  have members : ∀ id, id ∈ population ↔
      ∃ f ∈ facts.filter fun f => f.key = (subject, predicate), f.factId = id ∧
        Topmost (facts.filter fun f => f.key = (subject, predicate)) f := by
    intro id
    rw [(List.perm_insertionSort _ _).mem_iff, List.mem_map]
    constructor
    · rintro ⟨f, member, rfl⟩
      obtain ⟨inRows, topmost⟩ := (mem f).mp member
      exact ⟨f, inRows, rfl, topmost⟩
    · rintro ⟨f, inRows, rfl, topmost⟩
      exact ⟨f, (mem f).mpr ⟨inRows, topmost⟩, rfl⟩
  rw [selectedPopulation, found]
  show some population = some ids ↔ _
  constructor
  · intro same
    rw [← Option.some.inj same]
    exact ⟨canonical, members⟩
  · rintro ⟨canonical', members'⟩
    rw [canonical.ext canonical' fun id => (members id).trans (members' id).symm]

namespace AuthorizedSidecarMemory

variable {m : AuthorizedSidecarMemory} {key : Key} {index : Dict Nat AttestedSidecarFact}

private theorem mem_factsOf (coherent : m.Coherent)
    (indexed : ∀ id item, index.get id = some item ↔ m.Attests id item ∧ item.fact.key = key)
    {f : FactFields} : f ∈ factsOf index ↔
      ∃ item, m.Attests item.fact.factId item ∧ item.fact.key = key ∧
        item.fact.toFactFields = f := by
  simp only [factsOf, List.mem_map, Prod.exists]
  constructor
  · rintro ⟨id, item, member, rfl⟩
    obtain ⟨attests, same⟩ := (indexed id item).mp ((index.get_eq_some_iff id item).mpr member)
    rw [← coherent.ids id item attests] at attests
    exact ⟨item, attests, same, rfl⟩
  · rintro ⟨item, attests, same, rfl⟩
    refine ⟨item.fact.factId, item, ?_, rfl⟩
    exact (index.get_eq_some_iff _ _).mp ((indexed _ _).mpr ⟨attests, same⟩)

private theorem topmost_iff (coherent : m.Coherent) {rows : List FactFields}
    (held : ∀ f, f ∈ rows ↔ ∃ item, m.Attests item.fact.factId item ∧ item.fact.key = key ∧
      item.fact.toFactFields = f)
    {item : AttestedSidecarFact} (attests : m.Attests item.fact.factId item)
    (same : item.fact.key = key) :
    Topmost rows item.fact.toFactFields ↔ m.Active item.fact.factId := by
  obtain ⟨top, last, known, active, kin, rising⟩ := coherent.chain _ item attests
  have atTop : last.fact.factId = top := coherent.ids top last known
  constructor
  · intro topmost
    by_cases here : item.fact.factId = top
    · rw [here]
      exact active
    · have below := (rising _ item attests ⟨rfl, rfl⟩ here).1
      have member : last.fact.toFactFields ∈ rows :=
        (held _).mpr ⟨last, atTop ▸ known, kin.1.trans same, rfl⟩
      have other : last.fact.toFactFields ≠ item.fact.toFactFields := by
        intro equal
        exact here (by rw [← atTop, equal])
      exact absurd (topmost _ member kin.2 other) (Nat.lt_asymm below)
  · intro active' g member orbit other
    obtain ⟨old, attests', same', rfl⟩ := (held g).mp member
    have here : item.fact.factId = top := by
      by_contra elsewhere
      exact (rising _ item attests ⟨rfl, rfl⟩ elsewhere).2 active'
    have item_last : last = item := by
      rw [here] at attests
      exact Attests.unique known attests
    have different : old.fact.factId ≠ top := by
      intro equal
      rw [equal] at attests'
      rw [Attests.unique attests' known, item_last] at other
      exact other rfl
    have below := (rising _ old attests' ⟨same'.trans same.symm, orbit⟩ different).1
    rw [item_last] at below
    exact below

theorem Coherent.selectedPopulation_iff (coherent : m.Coherent)
    (indexed : ∀ id item, index.get id = some item ↔ m.Attests id item ∧ item.fact.key = key)
    {ids : List Nat} : selectedPopulation (factsOf index) key.1 key.2 = some ids ↔
      Canonical ids ∧ ∀ id, id ∈ ids ↔
        ∃ item, m.Attests id item ∧ item.fact.key = key ∧ m.Active id := by
  have held (f : FactFields) := mem_factsOf coherent indexed (f := f)
  have whole : ((factsOf index).filter fun f => f.key = (key.1, key.2)) = factsOf index := by
    refine List.filter_eq_self.mpr fun f member => ?_
    obtain ⟨item, -, same, rfl⟩ := (held f).mp member
    exact decide_eq_true same
  have nodup : ((factsOf index).map FactFields.factId).Nodup := by
    have keys : (factsOf index).map FactFields.factId = index.keys := by
      rw [factsOf, List.map_map]
      refine List.map_congr_left fun e member => ?_
      obtain ⟨attests, -⟩ := (indexed e.1 e.2).mp ((index.get_eq_some_iff _ _).mpr member)
      exact coherent.ids e.1 e.2 attests
    rw [keys]
    exact index.nodup
  have ranked : Ranked ((factsOf index).filter fun f => f.key = (key.1, key.2)) := by
    rw [whole]
    refine ⟨nodup, fun f member => ?_⟩
    obtain ⟨item, attests, same, rfl⟩ := (held f).mp member
    obtain ⟨top, last, known, active, kin, -⟩ := coherent.chain _ item attests
    obtain rfl := coherent.ids top last known
    refine ⟨last.fact.toFactFields, (held _).mpr ⟨last, known, kin.1.trans same, rfl⟩, kin.2, ?_⟩
    exact (topmost_iff coherent held known (kin.1.trans same)).mpr active
  rw [selectedPopulation_eq_some ranked, whole]
  refine and_congr_right fun _ => forall_congr' fun id => iff_congr Iff.rfl ?_
  constructor
  · rintro ⟨f, member, rfl, topmost⟩
    obtain ⟨item, attests, same, rfl⟩ := (held f).mp member
    exact ⟨item, attests, same, (topmost_iff coherent held attests same).mp topmost⟩
  · rintro ⟨item, attests, same, active⟩
    obtain rfl := coherent.ids id item attests
    exact ⟨item.fact.toFactFields, (held _).mpr ⟨item, attests, same, rfl⟩, rfl,
      (topmost_iff coherent held attests same).mpr active⟩

end AuthorizedSidecarMemory

end ProofRay.Sidecar
