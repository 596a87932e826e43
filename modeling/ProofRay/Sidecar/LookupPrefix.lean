/- The lookup tables of an executor: the winners of each fiber after each observation clock, asked
   by binary search, against a scan of the facts. -/

import Mathlib.Data.Prod.Lex
import ProofRay.Lib.Search
import ProofRay.Lib.Timeline
import ProofRay.Sidecar.Program

namespace ProofRay.Sidecar

open Lib
open Lib.Guard

/-- `(fact.version, fact.event_time, fact.observed_at)`. -/
def FactFields.clock (f : FactFields) : Nat ×ₗ Nat ×ₗ Nat :=
  toLex (f.version, toLex (f.eventTime, f.observedAt))

/-- `sorted(winners, key=lambda fact: fact.fact_id)`. -/
def byFactId (facts : List FactFields) : List FactFields :=
  facts.insertionSort fun f g => f.factId ≤ g.factId

/-- `_build_lookup_prefix`: the instants, and the winners after each. -/
def buildLookupPrefix (facts : List FactFields) : List Nat × List (List FactFields) :=
  let table := timeline FactFields.observedAt (compete FactFields.clock) none facts
  (table.map Prod.fst, table.map fun entry => byFactId (leaders entry.2))

namespace TypedCausalExecutor

variable (x : TypedCausalExecutor)

/-- `fibers`. -/
def fibers : Dict Key (List FactFields) := Dict.gather FactFields.key x.rows

/-- `lookup_prefix`. -/
def lookupPrefix : Dict Key (List Nat × List (List FactFields)) :=
  Dict.empty.update (x.fibers.items.map fun entry => (entry.1, buildLookupPrefix entry.2))

/-- `_lookup_selected` as the tables answer it, with the FactIds it looked at. -/
def tableSelected (selector : CausalSelector) (atTime : Option Nat) : List FactFields × List Nat :=
  match selector.value with
  | some _ =>
    let (found, examined) := x.selected selector atTime
    (found.getD [], examined)
  | none =>
    let (times, snapshots) :=
      (x.lookupPrefix.get (selector.subject, selector.predicate)).getD ([], [])
    match reached times atTime with
    | 0 => ([], [])
    | position + 1 =>
      let winners := snapshots.getD position []
      (winners, winners.map FactFields.factId)

/-- What `_execute` makes of the winners of a lookup. -/
def conclude (latest : List FactFields) : TypedCausalResult :=
  if latest = [] then .abstain "no_matching_fact"
  else
    match (latest.map answer).dedup with
    | [(value, unit, polarity, asserted)] =>
      if asserted = false then .abstain "uncertain_fact"
      else if polarity < 0 then .abstain "latest_state_is_negative"
      else
        .resolved value unit ((leastId latest).toList.map FactFields.factId) "unique_latest_state"
    | _ =>
      if (latest.map FactFields.orbit).dedup.length = 1 then .abstain "conflicting_latest_orbit"
      else .abstain "contested_latest_state"

def completed (result : TypedCausalResult) (examined : List Nat) : TypedCausalResult :=
  { result with
    proofs := (result.factIds.filterMap x.byId).map fun f =>
      ⟨f.factId, f.sourceId, f.sourceSha256, f.sourceSpan⟩
    examinedFactIds := examined.dedup.insertionSort (· ≤ ·) }

/-- `execute`, with lookups answered from the tables. -/
def executeIndexed (sumDecimals : List String → Option String) (program : TypedCausalProgram) :
    TypedCausalResult :=
  if program.operator = .lookup then
    let (latest, examined) := x.tableSelected program.selector program.atTime
    x.completed (conclude latest) examined
  else x.execute sumDecimals program

/-- The facts of a fiber observed no later than the instant, of the greatest version, event time
and observation clock among them. -/
def scanned (selector : CausalSelector) (atTime : Option Nat) : List FactFields :=
  let timely := x.rows.filter fun f => f.key = (selector.subject, selector.predicate) ∧
    atTime.all fun instant => f.observedAt ≤ instant
  timely.filter fun f => ∀ g ∈ timely, g.clock ≤ f.clock

def scan (program : TypedCausalProgram) : TypedCausalResult :=
  let latest := x.scanned program.selector program.atTime
  x.completed (conclude latest) (latest.map FactFields.factId)

end TypedCausalExecutor

section

variable {facts facts' : List FactFields}

theorem byFactId_eq (nodup : facts.Nodup) (ordered : facts'.Pairwise fun f g => f.factId < g.factId)
    (same : ∀ f, f ∈ facts ↔ f ∈ facts') : byFactId facts = facts' := by
  have nodup' : facts'.Nodup := ordered.imp fun {f g} less equal => by
    subst equal
    exact absurd less (lt_irrefl _)
  have perm : (byFactId facts).Perm facts' :=
    (List.perm_insertionSort _ _).trans ((List.perm_ext_iff_of_nodup nodup nodup').mpr same)
  have sorted : (byFactId facts).Pairwise fun f g => f.factId ≤ g.factId :=
    List.pairwise_insertionSort _ _
  refine perm.eq_of_pairwise (fun f g ina inb le ge => ?_) sorted (ordered.imp le_of_lt)
  have increasing : Search.Increasing facts' FactFields.factId := ordered
  exact increasing.eq_of_key_eq (perm.mem_iff.mp ina) inb (le_antisymm le ge)

end

namespace TypedCausalExecutor

variable {x : TypedCausalExecutor} {facts : List TypedCausalFact} {scope : String}

theorem rows_ordered (made : TypedCausalExecutor.make facts scope = .ok x) :
    x.rows.Pairwise fun f g => f.factId < g.factId := by
  simp only [TypedCausalExecutor.make, bind_eq_ok, require_eq_ok, pure_eq_ok] at made
  obtain ⟨-, -, -, canonical, -, -, -, -, rfl⟩ := made
  have ordered : (facts.map fun f => f.factId).Pairwise (· < ·) := canonical
  rw [List.pairwise_map] at ordered
  exact List.pairwise_map.mpr ordered

theorem nodup_of_ordered {rows : List FactFields}
    (ordered : rows.Pairwise fun f g => f.factId < g.factId) : rows.Nodup :=
  ordered.imp fun less equal => absurd (congrArg FactFields.factId equal) less.ne

theorem get_lookupPrefix (selector : CausalSelector) :
    (x.lookupPrefix.get (selector.subject, selector.predicate)).getD ([], []) =
      buildLookupPrefix (x.fiber selector) := by
  have fiber : x.fiber selector =
      x.rows.filter fun f => f.key = (selector.subject, selector.predicate) := rfl
  have known : x.fibers.get (selector.subject, selector.predicate) =
      if (selector.subject, selector.predicate) ∈ x.rows.map FactFields.key then
        some (x.fiber selector) else none :=
    (Dict.get_gather _ _ _).trans (by congr)
  unfold lookupPrefix
  have keys : ((x.fibers.items.map fun entry => (entry.1, buildLookupPrefix entry.2)).map
      Prod.fst) = x.fibers.keys := by simp [Dict.keys]
  by_cases there : (selector.subject, selector.predicate) ∈ x.rows.map FactFields.key
  · rw [if_pos there, Dict.get_eq_some_iff] at known
    have found : ((selector.subject, selector.predicate), buildLookupPrefix (x.fiber selector)) ∈
        x.fibers.items.map fun entry => (entry.1, buildLookupPrefix entry.2) :=
      List.mem_map.mpr ⟨_, known, rfl⟩
    rw [Dict.get_update_of_mem (keys ▸ x.fibers.nodup) found]
    rfl
  · rw [if_neg there, Dict.get_eq_none_iff] at known
    rw [Dict.get_update_of_not_mem (keys ▸ known)]
    have empty : x.fiber selector = [] := by
      rw [fiber, List.filter_eq_nil_iff]
      intro f member equal
      exact there (List.mem_map.mpr ⟨f, member, of_decide_eq_true equal⟩)
    rw [empty]
    rfl

variable {selector : CausalSelector}

variable {f : FactFields}

theorem mem_scanned {atTime : Option Nat} :
    f ∈ x.scanned selector atTime ↔
      (f ∈ x.fiber selector ∧ atTime.all fun instant => f.observedAt ≤ instant) ∧
        ∀ g ∈ x.fiber selector, (atTime.all fun instant => g.observedAt ≤ instant) →
          g.clock ≤ f.clock := by
  simp only [scanned, fiber, List.mem_filter, decide_eq_true_eq, and_imp, and_assoc]

theorem tableSelected_of_bare (bare : selector.value = none) (atTime : Option Nat) :
    (x.tableSelected selector atTime).1 = byFactId (leaders ((stateAt (timeline
        FactFields.observedAt (compete FactFields.clock) none (x.fiber selector)) atTime).getD
        none)) ∧
      (x.tableSelected selector atTime).2 =
        (x.tableSelected selector atTime).1.map FactFields.factId := by
  unfold tableSelected stateAt
  rw [bare, get_lookupPrefix]
  simp only [buildLookupPrefix]
  set table := timeline FactFields.observedAt (compete FactFields.clock) none (x.fiber selector)
  cases reached (table.map Prod.fst) atTime with
  | zero => exact ⟨rfl, rfl⟩
  | succ position =>
    refine ⟨?_, rfl⟩
    simp only [List.getD_eq_getElem?_getD, List.getElem?_map]
    cases table[position]? with
    | none => rfl
    | some entry => rfl

theorem tableSelected_eq (ordered : x.rows.Pairwise fun f g => f.factId < g.factId)
    (bare : selector.value = none) (atTime : Option Nat) :
    x.tableSelected selector atTime =
      (x.scanned selector atTime, (x.scanned selector atTime).map FactFields.factId) := by
  obtain ⟨seen, within, distinct, state⟩ := stateAt_timeline FactFields.observedAt
    (compete FactFields.clock) none (x.fiber selector) atTime
  have reached : (stateAt (timeline FactFields.observedAt (compete FactFields.clock) none
      (x.fiber selector)) atTime).getD none = seen.foldl (compete FactFields.clock) none := by
    rcases state with ⟨nothing, rfl⟩ | found
    · rw [nothing]
      rfl
    · rw [found]
      rfl
  have nodup : seen.Nodup := distinct ((nodup_of_ordered ordered).filter _)
  have winners : byFactId (leaders (seen.foldl (compete FactFields.clock) none)) =
      x.scanned selector atTime := by
    refine byFactId_eq (nodup_leaders nodup) ((ordered.filter _).filter _) fun f => ?_
    rw [mem_leaders, mem_scanned]
    simp only [within, and_imp]
  obtain ⟨first, second⟩ := tableSelected_of_bare (x := x) bare atTime
  rw [reached, winners] at first
  rw [first] at second
  exact Prod.ext first second

theorem wins_iff {g f : FactFields} : wins g f = true ↔ f.clock < g.clock := by
  simp only [wins, FactFields.clock, Prod.Lex.toLex_lt_toLex, Bool.or_eq_true, Bool.and_eq_true,
    decide_eq_true_eq]

theorem foldl_contend (facts : List FactFields) :
    facts.foldl contend [] = leaders (facts.foldl (compete FactFields.clock) none) := by
  induction facts using List.reverseRecOn with
  | nil => rfl
  | append_singleton facts f ih =>
    rw [List.foldl_append, List.foldl_append, List.foldl_cons, List.foldl_cons, List.foldl_nil,
      List.foldl_nil, ih]
    rcases contest_foldl FactFields.clock facts with
      ⟨rfl, fresh⟩ | ⟨most, best, known, contest⟩
    · rfl
    · rw [known]
      obtain ⟨leader, led, top⟩ := contest.reached
      have inside := (contest.mem leader).mpr ⟨led, top⟩
      cases best with
      | nil => cases inside
      | cons w rest =>
        have rank : w.clock = most := ((contest.mem w).mp List.mem_cons_self).2
        simp only [leaders, Option.elim_some, contend, compete, wins_iff, rank]
        by_cases better : most < f.clock
        · simp [better]
        · rcases (not_lt.mp better).lt_or_eq with less | same
          · simp [better, less, less.ne]
          · simp [same]

theorem winners_eq_scanned (ordered : x.rows.Pairwise fun f g => f.factId < g.factId)
    (selector : CausalSelector) (atTime : Option Nat) :
    winners (x.fiber selector) atTime = x.scanned selector atTime := by
  unfold winners
  simp only [foldl_contend]
  refine byFactId_eq (nodup_leaders ?_) ((ordered.filter _).filter _) fun f => ?_
  · exact (List.perm_insertionSort _ _).nodup_iff.mpr
      (((nodup_of_ordered ordered).filter _).filter _)
  · simp only [mem_leaders, mem_scanned, (List.perm_insertionSort _ _).mem_iff, List.mem_filter,
      and_imp]

theorem dedup_eq_singleton_iff {α : Type} [DecidableEq α] {l : List α} {a : α} (member : a ∈ l) :
    l.dedup = [a] ↔ ∀ b ∈ l, b = a := by
  constructor
  · intro single b inside
    have := List.mem_dedup.mpr inside
    rw [single] at this
    exact List.mem_singleton.mp this
  · intro all
    refine List.perm_singleton.mp ((List.perm_ext_iff_of_nodup (List.nodup_dedup l)
      (List.nodup_singleton a)).mpr fun b => ?_)
    rw [List.mem_dedup, List.mem_singleton]
    exact ⟨all b, fun equal => equal ▸ member⟩

theorem length_dedup_eq_one_iff {α : Type} [DecidableEq α] {l : List α} {a : α} (member : a ∈ l) :
    l.dedup.length = 1 ↔ ∀ b ∈ l, b = a := by
  rw [← dedup_eq_singleton_iff member, List.length_eq_one_iff]
  constructor
  · rintro ⟨b, single⟩
    have inside := List.mem_dedup.mpr member
    rw [single] at inside ⊢
    rw [List.mem_singleton.mp inside]
  · intro single
    exact ⟨a, single⟩

theorem leastId_eq_none {facts : List FactFields} : leastId facts = none ↔ facts = [] := by
  cases facts with
  | nil => simp [leastId]
  | cons f rest =>
    simp only [leastId, reduceCtorEq, iff_false]
    cases leastId rest with
    | none => simp
    | some g =>
      simp only
      split <;> simp

theorem mem_of_leastId {facts : List FactFields} (least : leastId facts = some f) : f ∈ facts := by
  induction facts with
  | nil => cases least
  | cons g rest ih =>
    rw [leastId] at least
    cases found : leastId rest with
    | none =>
      rw [found] at least
      cases least
      exact List.mem_cons_self
    | some h =>
      rw [found] at least
      simp only at least
      split at least
      · cases least
        exact List.mem_cons_self
      · cases least
        exact List.mem_cons_of_mem _ (ih found)

theorem lookup_eq (program : TypedCausalProgram) :
    x.lookup program = (conclude (x.lookupSelected program.selector program.atTime).1,
      (x.lookupSelected program.selector program.atTime).2) := by
  unfold lookup
  obtain ⟨latest, examined⟩ := x.lookupSelected program.selector program.atTime
  simp only [Prod.mk.injEq, and_true]
  unfold conclude
  cases least : leastId latest with
  | none => simp [leastId_eq_none.mp least]
  | some witness =>
    have member := mem_of_leastId least
    rw [if_neg (List.ne_nil_of_mem member)]
    have orbits := length_dedup_eq_one_iff (List.mem_map_of_mem (f := FactFields.orbit) member)
    have answers := dedup_eq_singleton_iff (List.mem_map_of_mem (f := answer) member)
    simp only [List.forall_mem_map] at orbits answers
    simp only [List.all_eq_true, decide_eq_true_eq]
    by_cases agree : ∀ f ∈ latest, answer f = answer witness
    · rw [if_pos agree, answers.mpr agree]
      simp [answer]
    · rw [if_neg agree]
      have contested : ∀ a, (latest.map answer).dedup ≠ [a] := by
        intro a single
        have inside := List.mem_dedup.mpr (List.mem_map_of_mem (f := answer) member)
        rw [single] at inside
        exact agree (answers.mp (List.mem_singleton.mp inside ▸ single))
      generalize (latest.map answer).dedup = found at contested
      match found, contested with
      | [a], several => exact absurd rfl (several a)
      | [], _ => simp only [orbits]
      | _ :: _ :: _, _ => simp only [orbits]

/-- Every program is answered from the tables as it is answered from the facts of a fiber. -/
theorem execute_eq_executeIndexed (made : TypedCausalExecutor.make facts scope = .ok x)
    (sumDecimals : List String → Option String) (program : TypedCausalProgram) :
    x.execute sumDecimals program = x.executeIndexed sumDecimals program := by
  unfold executeIndexed
  split
  · rename_i looksUp
    have selected : x.lookupSelected program.selector program.atTime =
        x.tableSelected program.selector program.atTime := by
      cases bare : program.selector.value with
      | some value => simp only [lookupSelected, tableSelected, bare]
      | none =>
        rw [tableSelected_eq (rows_ordered made) bare]
        simp only [lookupSelected, bare, winners_eq_scanned (rows_ordered made)]
    simp only [execute, run, if_pos looksUp, lookup_eq, selected, completed]
  · rfl

/-- A lookup without a selector value is answered from the tables as a scan of the facts answers
it, at every instant and at none. -/
theorem executeIndexed_eq_scan (made : TypedCausalExecutor.make facts scope = .ok x)
    (sumDecimals : List String → Option String) {program : TypedCausalProgram}
    (looksUp : program.operator = .lookup) (bare : program.selector.value = none) :
    x.executeIndexed sumDecimals program = x.scan program := by
  unfold executeIndexed scan
  rw [if_pos looksUp, tableSelected_eq (rows_ordered made) bare]

def doorReport (factId version observedAt : Nat) (value : String) : FactFields :=
  ⟨factId, "house", "door", "state", value, observedAt, 7, version, "", 1, true, "", [], "log",
    "0000000000000000000000000000000000000000000000000000000000000000", (0, 4)⟩

def doorReports : List TypedCausalFact :=
  [⟨doorReport 0 2 3 "open", by decide +kernel⟩, ⟨doorReport 1 1 5 "shut", by decide +kernel⟩]

/-- Asked after both. -/
theorem executeIndexed_eq_scan_door :
    ∃ x, TypedCausalExecutor.make doorReports "house" = .ok x ∧
      x.executeIndexed (fun _ => none)
          ⟨.lookup, ⟨"door", "state", none⟩, [], "", some 6, false⟩ =
        x.scan ⟨.lookup, ⟨"door", "state", none⟩, [], "", some 6, false⟩ := by
  have made : TypedCausalExecutor.make doorReports "house" = .ok ⟨doorReports, "house"⟩ := rfl
  exact ⟨_, made, executeIndexed_eq_scan made _ rfl rfl⟩

theorem execute_eq_executeIndexed_door :
    ∃ x, TypedCausalExecutor.make doorReports "house" = .ok x ∧
      x.execute (fun _ => none) ⟨.lookup, ⟨"door", "state", none⟩, [], "", some 4, false⟩ =
        x.executeIndexed (fun _ => none)
          ⟨.lookup, ⟨"door", "state", none⟩, [], "", some 4, false⟩ := by
  have made : TypedCausalExecutor.make doorReports "house" = .ok ⟨doorReports, "house"⟩ := rfl
  exact ⟨_, made, execute_eq_executeIndexed made _ _⟩

end TypedCausalExecutor

end ProofRay.Sidecar
