/- What each mode of a lattice query comes to. -/

import ProofRay.Attention.ProofLattice

namespace ProofRay.Attention

open Engine (Crypto)
open Hdem
open Lib (Dict sortedSet)
open Lib.Guard

section

variable {guards : Int → Guard} {monomial : List Int} {readings : Guard}
  {merged merged' : Dict String String} {a : String → String}

private theorem holds_set {name value : String}
    (agrees : ∀ v, merged.get name = some v → v = value) :
    (∀ n v, (merged.set name value).get n = some v → a n = v) ↔
      a name = value ∧ ∀ n v, merged.get n = some v → a n = v := by
  constructor
  · intro all
    refine ⟨all name value (Dict.get_set_self _ _ _), fun n v held => ?_⟩
    by_cases same : name = n
    · subst same
      rw [agrees v held]
      exact all name value (Dict.get_set_self _ _ _)
    · refine all n v ?_
      rw [Dict.get_set_ne _ _ same]
      exact held
  · rintro ⟨first, all⟩ n v held
    by_cases same : name = n
    · subst same
      rw [Dict.get_set_self] at held
      cases held
      exact first
    · rw [Dict.get_set_ne _ _ same] at held
      exact all n v held

private theorem mergeReadings_spec :
    (mergeReadings readings merged = none →
      ¬((∀ n v, merged.get n = some v → a n = v) ∧ readings.Holds a)) ∧
    ∀ merged', mergeReadings readings merged = some merged' →
      ((∀ n v, merged'.get n = some v → a n = v) ↔
        (∀ n v, merged.get n = some v → a n = v) ∧ readings.Holds a) ∧
      ∀ n v, merged'.get n = some v → merged.get n = some v ∨ (n, v) ∈ readings := by
  induction readings generalizing merged with
  | nil =>
    refine ⟨fun none => (by cases none), fun merged' ok => ?_⟩
    cases ok
    exact ⟨(and_iff_left (List.forall_mem_nil _)).symm, fun n v held => .inl held⟩
  | cons p readings ih =>
    obtain ⟨name, value⟩ := p
    have holds : Guard.Holds ((name, value) :: readings) a ↔
        a name = value ∧ Guard.Holds readings a := List.forall_mem_cons
    have onward (agrees : ∀ v, merged.get name = some v → v = value) :
        (mergeReadings readings (merged.set name value) = none →
          ¬((∀ n v, merged.get n = some v → a n = v) ∧ Guard.Holds ((name, value) :: readings) a)) ∧
        ∀ merged', mergeReadings readings (merged.set name value) = some merged' →
          ((∀ n v, merged'.get n = some v → a n = v) ↔
            (∀ n v, merged.get n = some v → a n = v) ∧ Guard.Holds ((name, value) :: readings) a) ∧
          ∀ n v, merged'.get n = some v →
            merged.get n = some v ∨ (n, v) ∈ (name, value) :: readings := by
      obtain ⟨fails, merges⟩ := @ih (merged.set name value)
      rw [holds_set agrees] at fails
      rw [holds]
      refine ⟨fun none both => fails none ⟨⟨both.2.1, both.1⟩, both.2.2⟩, fun merged' ok => ?_⟩
      obtain ⟨iff, adds⟩ := merges merged' ok
      rw [iff, holds_set agrees]
      refine ⟨by tauto, fun n v held => ?_⟩
      rcases adds n v held with before | later
      · by_cases same : name = n
        · subst same
          rw [Dict.get_set_self] at before
          cases before
          exact .inr List.mem_cons_self
        · rw [Dict.get_set_ne _ _ same] at before
          exact .inl before
      · exact .inr (List.mem_cons_of_mem _ later)
    unfold mergeReadings
    split
    · rename_i previous held
      split
      · rename_i differs
        refine ⟨fun _ both => differs ?_, fun merged' ok => (by cases ok)⟩
        exact (both.1 name previous held).symm.trans (holds.mp both.2).1
      · rename_i same
        refine onward fun v held' => ?_
        rw [held] at held'
        cases held'
        exact not_not.mp same
    · rename_i free
      refine onward fun v held => ?_
      rw [free] at held
      cases held

private theorem holds_flatMap :
    Guard.Holds (monomial.flatMap guards) a ↔ ∀ id ∈ monomial, (guards id).Holds a := by
  simp only [Guard.Holds, List.mem_flatMap]
  constructor
  · exact fun all id member p inside => all p ⟨id, member, inside⟩
  · rintro all p ⟨id, member, inside⟩
    exact all id member p inside

theorem holds_derivationGuard {guard : Guard}
    (found : hpltDerivationGuard monomial guards = some guard) :
    (guard.Holds a ↔ ∀ id ∈ monomial, (guards id).Holds a) ∧
      ∀ p ∈ guard, ∃ id ∈ monomial, p ∈ guards id := by
  obtain ⟨merged, merges, rfl⟩ := Option.map_eq_some_iff.mp found
  obtain ⟨iff, adds⟩ := (mergeReadings_spec (a := a)).2 merged merges
  have items : Guard.Holds (merged.sortedBy id) a ↔ ∀ n v, merged.get n = some v → a n = v := by
    constructor
    · intro all n v held
      exact all (n, v) (Dict.mem_sortedBy.mpr held)
    · intro all p member
      exact all p.1 p.2 (Dict.mem_sortedBy.mp member)
  have start : ∀ n v, (Dict.empty : Dict String String).get n = some v → a n = v := by
    intro n v held
    cases held
  constructor
  · rw [items, iff, holds_flatMap]
    exact and_iff_right start
  · intro p member
    rcases adds p.1 p.2 (Dict.mem_sortedBy.mp member) with none | inside
    · cases none
    · exact List.mem_flatMap.mp inside

theorem exists_derivationGuard (holds : ∀ id ∈ monomial, (guards id).Holds a) :
    ∃ guard, hpltDerivationGuard monomial guards = some guard := by
  cases merges : mergeReadings (monomial.flatMap guards) Dict.empty with
  | some merged => exact ⟨_, by rw [hpltDerivationGuard, merges]; rfl⟩
  | none =>
    refine absurd ⟨fun n v held => ?_, holds_flatMap.mpr holds⟩
      ((mergeReadings_spec (a := a)).1 merges)
    cases held

end

theorem lists_outputsOf {items : List (List String × List (List Int))} (nonempty : items ≠ [])
    (each : ∀ item ∈ items, item.2 ≠ []) :
    Lists (stateOf (outputsOf items)) (outputsOf items)
      {p | ∃ item ∈ items, item.1 = p.1 ∧ p.2 ∈ item.2} := by
  refine ⟨⟨items.flatMap fun item => item.2.map (Prod.mk item.1), fun p => ?_, ?_⟩, ?_⟩
  · simp only [List.mem_flatMap, List.mem_map, Set.mem_ofPred_eq]
    refine exists_congr fun item => and_congr_right fun _ => ?_
    constructor
    · rintro ⟨m, inside, rfl⟩
      exact ⟨rfl, inside⟩
    · rintro ⟨same, inside⟩
      exact ⟨p.2, inside, Prod.ext same rfl⟩
  · rw [outputsOf, Lib.collected_eq_grouped each]
  · have some_output : outputsOf items ≠ [] := by
      rw [outputsOf, ne_eq, List.map_eq_nil_iff, Lib.collected_eq_nil]
      exact nonempty
    rw [if_neg some_output, stateOf]

namespace HPLTQuery

variable (c : Crypto) (q : HPLTQuery)

def World (a : String → String) : Prop := q.problem.Assigns a ∧ q.problem.Satisfies a

def shown (a : String → String) : List AuthorizedFact :=
  (q.guardedFacts.filter fun candidate => candidate.guard.Holds a).map HPLTGuardedFact.fact

def answersOver (facts : List AuthorizedFact) : Set Answer :=
  {p | ∃ executor, q.executor facts = .ok executor ∧ p ∈ answers c executor q.program}

def closes (a : String → String) : Set Answer := q.answersOver c (q.shown a)

def closesJointly (a : String → String) : Set Answer :=
  {p | p ∈ q.answersOver c (q.guardedFacts.map HPLTGuardedFact.fact) ∧
    ∀ id ∈ p.2, (q.guardOf id).Holds a}

def proved (p : Answer) : Answer :=
  (p.1, proofOf q.problem p.2 ((hpltDerivationGuard p.2 q.guardOf).getD []))

def verdict (close : (String → String) → Set Answer) : Set Answer :=
  {p | (∀ a, q.World a → (close a).Nonempty) ∧ ∃ a, q.World a ∧ p ∈ q.proved '' close a}

def amount (items : List (List String × List (List Int))) (ws : List HDEMWorld) : Set Answer :=
  {p | (∀ w ∈ ws, (q.answersOver c (q.active w)).Nonempty) ∧
    ((∃ item ∈ items, item.1 = p.1 ∧ p.2 ∈ item.2) ∨
      ∃ w ∈ ws, p ∈ q.proved '' q.answersOver c (q.active w))}

def Executable : Prop :=
  (q.sources.map fun source => source.sourceId).Nodup ∧ [] ∉ q.nogoods

instance : Decidable q.Executable := inferInstanceAs (Decidable (_ ∧ _))

section

variable {c : Crypto} {q : HPLTQuery} {facts : List AuthorizedFact}

theorem executor_ok (checked : q.Checked) (executable : q.Executable) (some_fact : facts ≠ [])
    (factIds : (facts.map fun fact => fact.factId).Nodup) :
    ∃ executor, q.executor facts = .ok executor := by
  obtain ⟨-, sources, scope, rules⟩ := checked.supplied
  have supplied : q.sources ≠ [] ∧ facts ≠ [] ∧ q.scope ≠ "" ∧ q.allowedRules ≠ [] :=
    ⟨sources, some_fact, scope, rules⟩
  unfold executor SigmaPBAExecutor.make
  rw [dif_pos supplied, dif_pos executable.1, dif_pos factIds, dif_pos executable.2]
  exact ⟨_, rfl⟩

theorem executor_error (checked : q.Checked) (refused : ¬q.Executable) :
    ∃ e, ∀ facts : List AuthorizedFact, facts ≠ [] →
      (facts.map fun fact => fact.factId).Nodup → q.executor facts = .error e := by
  obtain ⟨-, sources, scope, rules⟩ := checked.supplied
  by_cases unique : (q.sources.map fun source => source.sourceId).Nodup
  · refine ⟨.valueError "empty nogood would invalidate every environment",
      fun facts some_fact factIds => ?_⟩
    have supplied : q.sources ≠ [] ∧ facts ≠ [] ∧ q.scope ≠ "" ∧ q.allowedRules ≠ [] :=
      ⟨sources, some_fact, scope, rules⟩
    unfold executor SigmaPBAExecutor.make
    rw [dif_pos supplied, dif_pos unique, dif_pos factIds,
      dif_neg fun fine => refused ⟨unique, fine⟩]
  · refine ⟨.valueError "source identities must be unique", fun facts some_fact factIds => ?_⟩
    have supplied : q.sources ≠ [] ∧ facts ≠ [] ∧ q.scope ≠ "" ∧ q.allowedRules ≠ [] :=
      ⟨sources, some_fact, scope, rules⟩
    unfold executor SigmaPBAExecutor.make
    rw [dif_pos supplied, dif_neg unique]

variable {s : Coverage} {executor : SigmaPBAExecutor} {ws : List HDEMWorld} {p : Answer}

theorem of_executor (made : q.executor facts = .ok executor) :
    executor.facts = facts ∧ executor.sources = q.sources ∧ executor.scope = q.scope ∧
      executor.allowedRules = q.allowedRules ∧ executor.nogoods = q.nogoods := by
  unfold HPLTQuery.executor SigmaPBAExecutor.make at made
  split at made
  · split at made
    · split at made
      · split at made
        · cases made
          exact ⟨rfl, rfl, rfl, rfl, rfl⟩
        · cases made
      · cases made
    · cases made
  · cases made

theorem answersOver_eq (made : q.executor facts = .ok executor) :
    q.answersOver c facts = answers c executor q.program := by
  ext p
  constructor
  · rintro ⟨other, made', member⟩
    rw [made] at made'
    cases made'
    exact member
  · exact fun member => ⟨executor, made, member⟩

theorem budgets_positive (checked : q.Checked) : q.budgets.Positive :=
  ⟨by show (1 : Int) ≤ 6; decide, checked.positive.2.2⟩

theorem lists_answersOver (checked : q.Checked) (made : q.executor facts = .ok executor) :
    ∃ r, executeProofAttention c executor q.program q.budgets = .ok r ∧
      (¬r.Exhausted → r.Lists (q.answersOver c facts)) := by
  rw [answersOver_eq made]
  exact lists_executeProofAttention _ _ _ (budgets_positive checked)

theorem factIds_shown (checked : q.Checked) (a : String → String) :
    ((q.shown a).map fun fact => fact.factId).Nodup := by
  rw [shown, List.map_map]
  exact checked.factIds.sublist (List.filter_sublist.map _)

theorem factIds_all (checked : q.Checked) :
    ((q.guardedFacts.map HPLTGuardedFact.fact).map fun fact => fact.factId).Nodup := by
  rw [List.map_map]
  exact checked.factIds

theorem guardOf_of_mem (checked : q.Checked) {candidate : HPLTGuardedFact}
    (member : candidate ∈ q.guardedFacts) : q.guardOf candidate.fact.factId = candidate.guard := by
  have found : (q.guardedFacts.find? fun other => other.fact.factId = candidate.fact.factId) =
      some candidate := by
    cases found : q.guardedFacts.find? fun other => other.fact.factId = candidate.fact.factId with
    | none => exact absurd (decide_eq_true rfl) (List.find?_eq_none.mp found candidate member)
    | some other =>
      have same : other.fact.factId = candidate.fact.factId :=
        of_decide_eq_true (List.find?_some found :)
      rw [List.inj_on_of_nodup_map checked.factIds (List.mem_of_find?_eq_some found) member same]
  rw [guardOf, found]
  rfl

theorem known_guardOf (checked : q.Checked) (factId : Int) :
    (q.guardOf factId).Known q.problem := by
  unfold guardOf
  cases found : q.guardedFacts.find? fun candidate => candidate.fact.factId = factId with
  | none => exact List.forall_mem_nil _
  | some candidate => exact checked.known candidate (List.mem_of_find?_eq_some found)

theorem known_derivationGuard (checked : q.Checked) {monomial : List Int} {guard : Guard}
    (found : hpltDerivationGuard monomial q.guardOf = some guard) : guard.Known q.problem := by
  intro p member
  obtain ⟨id, -, inside⟩ := (holds_derivationGuard (a := fun _ => "") found).2 p member
  exact known_guardOf checked id p inside

theorem holds_of_mem_closes (checked : q.Checked) {a : String → String} (member : p ∈ q.closes c a)
    : ∀ id ∈ p.2, (q.guardOf id).Holds a := by
  obtain ⟨executor, made, assignment, choice, homomorphism, rfl⟩ := member
  intro id inside
  rw [Lib.mem_sortedSet, List.mem_map] at inside
  obtain ⟨i, inRange, rfl⟩ := inside
  obtain ⟨goal, here⟩ : ∃ goal, q.program.goals[i]? = some goal :=
    ⟨_, List.getElem?_eq_getElem (List.mem_range.mp inRange)⟩
  have inFacts := (SigmaPBAExecutor.mem_activeFacts.mp (homomorphism.facts i goal here).1).1
  rw [(of_executor made).1, shown, List.mem_map] at inFacts
  obtain ⟨candidate, inFilter, same⟩ := inFacts
  obtain ⟨known, holds⟩ := List.mem_filter.mp inFilter
  rw [← same, guardOf_of_mem checked known]
  exact of_decide_eq_true holds

/-- What all the facts close a world with, the facts it shows close it with: a fact that none of all
supersedes is superseded by none of those shown. -/
theorem closesJointly_subset (checked : q.Checked) (a : String → String) :
    q.closesJointly c a ⊆ q.closes c a := by
  rintro _ ⟨⟨executor, made, assignment, choice, homomorphism, rfl⟩, holds⟩
  obtain ⟨facts, sources, scope, rules, nogoods⟩ := of_executor made
  have factOf : ∀ i goal, q.program.goals[i]? = some goal → choice i ∈ q.shown a := by
    intro i goal here
    have inFacts := (SigmaPBAExecutor.mem_activeFacts.mp (homomorphism.facts i goal here).1).1
    rw [facts, List.mem_map] at inFacts
    obtain ⟨candidate, known, same⟩ := inFacts
    refine List.mem_map.mpr ⟨candidate, List.mem_filter.mpr ⟨known, decide_eq_true ?_⟩, same⟩
    have inside := holds (choice i).factId (Lib.mem_sortedSet.mpr (List.mem_map.mpr
      ⟨i, List.mem_range.mpr (List.getElem?_eq_some_iff.mp here).1, rfl⟩))
    rw [← same, guardOf_of_mem checked known] at inside
    exact inside
  have some_goal : ∃ goal, q.program.goals[0]? = some goal :=
    ⟨_, List.getElem?_eq_getElem (List.length_pos_of_ne_nil q.program.nonempty.1)⟩
  obtain ⟨first, here⟩ := some_goal
  have executable : q.Executable := by
    rw [Executable, ← sources, ← nogoods]
    exact ⟨executor.sourceIds, executor.noEmptyNogood⟩
  obtain ⟨executor', made'⟩ := executor_ok checked executable
    (List.ne_nil_of_mem (factOf 0 first here)) (factIds_shown checked a)
  obtain ⟨facts', sources', scope', rules', nogoods'⟩ := of_executor made'
  have authorizes : ∀ fact, executor'.Authorizes c fact ↔ executor.Authorizes c fact := by
    intro fact
    unfold SigmaPBAExecutor.Authorizes SigmaPBAExecutor.source
    rw [scope, scope', sources, sources', rules, rules']
  refine ⟨executor', made', assignment, choice, ⟨fun i goal here => ?_, ?_⟩, rfl⟩
  · obtain ⟨active, rest⟩ := homomorphism.facts i goal here
    obtain ⟨-, authorized, latest⟩ := SigmaPBAExecutor.mem_activeFacts.mp active
    refine ⟨SigmaPBAExecutor.mem_activeFacts.mpr ⟨facts' ▸ factOf i goal here,
      (authorizes _).mpr authorized, fun other inShown authorized' => ?_⟩, rest⟩
    refine latest other ?_ ((authorizes other).mp authorized')
    rw [facts', shown] at inShown
    rw [facts]
    exact List.map_subset _ List.filter_sublist.subset inShown
  · rw [nogoods', ← nogoods]
    exact homomorphism.allowed

private theorem lookup_map (names : List String) (a : String → String) (name : String) :
    (names.map fun name => (name, a name)).lookup name =
      if name ∈ names then some (a name) else none := by
  induction names with
  | nil => rfl
  | cons first rest ih =>
    rw [List.map_cons, List.lookup_cons]
    by_cases same : name = first
    · subst same
      simp
    · have unlike : (name == first) = false := beq_eq_false_iff_ne.mpr same
      simp [unlike, ih, same]

theorem active_hdemWorld (checked : q.Checked) (a : String → String) :
    q.active (hdemWorld q.problem a) = q.shown a := by
  unfold active shown
  refine congrArg (List.map HPLTGuardedFact.fact) (List.filter_congr fun candidate member => ?_)
  refine decide_eq_decide.mpr (forall_congr' fun p => forall_congr' fun inGuard => ?_)
  show (q.problem.names.map fun name => (name, a name)).lookup p.1 = some p.2 ↔ a p.1 = p.2
  rw [lookup_map, if_pos (checked.known candidate member p inGuard).1, Option.some.injEq]

theorem mem_itemsOf {r : SigmaPBAResult} {listed : Set Answer} (lists : r.Lists listed)
    (guarded : ∀ p ∈ listed, ∃ guard, hpltDerivationGuard p.2 q.guardOf = some guard) :
    (∀ item ∈ q.itemsOf r, item.2 ≠ []) ∧
      ∀ p, (∃ item ∈ q.itemsOf r, item.1 = p.1 ∧ p.2 ∈ item.2) ↔ p ∈ q.proved '' listed := by
  constructor
  · intro item member
    obtain ⟨o, inOutputs, rfl⟩ := List.mem_map.mp member
    obtain ⟨ids, inListed⟩ := (lists.values o.values).mp ⟨o, inOutputs, rfl⟩
    obtain ⟨guard, found⟩ := guarded _ inListed
    have inProvenance := (lists.provenance o inOutputs ids).mpr inListed
    refine List.ne_nil_of_mem (a := proofOf q.problem ids guard) (List.mem_filterMap.mpr ?_)
    exact ⟨ids, inProvenance, by rw [found]; rfl⟩
  · rintro ⟨values, proof⟩
    constructor
    · rintro ⟨_, member, rfl, inside⟩
      obtain ⟨o, inOutputs, rfl⟩ := List.mem_map.mp member
      obtain ⟨ids, inProvenance, made⟩ := List.mem_filterMap.mp inside
      obtain ⟨guard, found, rfl⟩ := Option.map_eq_some_iff.mp made
      refine ⟨(o.values, ids), (lists.provenance o inOutputs ids).mp inProvenance, ?_⟩
      rw [proved, found]
      rfl
    · rintro ⟨⟨values', ids⟩, inListed, same⟩
      cases same
      obtain ⟨guard, found⟩ := guarded _ inListed
      obtain ⟨o, inOutputs, rfl⟩ := (lists.values values').mpr ⟨ids, inListed⟩
      refine ⟨_, List.mem_map_of_mem inOutputs, rfl, List.mem_filterMap.mpr
        ⟨ids, (lists.provenance o inOutputs ids).mpr inListed, ?_⟩⟩
      show (hpltDerivationGuard ids q.guardOf).map _ = some (proofOf q.problem ids _)
      rw [found]
      rfl

theorem amount_eq_empty {items : List (List String × List (List Int))} {w : HDEMWorld}
    (none : q.answersOver c (q.active w) = ∅) (member : w ∈ ws) : q.amount c items ws = ∅ := by
  refine Set.eq_empty_iff_forall_notMem.mpr fun p inside => ?_
  obtain ⟨answer, here⟩ := inside.1 w member
  rw [none] at here
  exact here

theorem overWorlds_spec (c : Crypto) (lattice : HDEMResult) (checked : q.Checked)
    (executable : q.Executable) {s : Collection} (worlds : ∀ w ∈ ws, ∃ a, hdemWorld q.problem a = w)
    (each : ∀ item ∈ s.items, item.2 ≠ []) (something : ws ≠ [] ∨ s.items ≠ []) :
    ∃ run, overWorlds c q lattice ws s = .ok run ∧ (run.exhausted = false →
      Lists run.result.state run.result.outputs (q.amount c s.items ws)) := by
  induction ws generalizing s with
  | nil =>
    refine ⟨_, rfl, fun _ => ?_⟩
    have all : q.amount c s.items [] = {p | ∃ item ∈ s.items, item.1 = p.1 ∧ p.2 ∈ item.2} := by
      ext p
      simp [amount]
    rw [all]
    exact lists_outputsOf (something.resolve_left fun h => h rfl) each
  | cons w ws ih =>
    obtain ⟨⟨a, isWorld⟩, later⟩ := List.forall_mem_cons.mp worlds
    unfold overWorlds
    split
    · rename_i none_active
      refine ⟨_, rfl, fun _ => ?_⟩
      have none : q.answersOver c (q.active w) = ∅ := by
        refine Set.eq_empty_iff_forall_notMem.mpr ?_
        rintro p ⟨executor, made, -⟩
        have facts := (of_executor made).1
        rw [none_active] at facts
        exact executor.supplied.2.1 facts
      rw [amount_eq_empty none List.mem_cons_self]
      exact lists_empty
    · rename_i some_active
      have factIds : ((q.active w).map fun fact => fact.factId).Nodup := by
        rw [← isWorld, active_hdemWorld checked]
        exact factIds_shown checked a
      obtain ⟨executor, made⟩ := executor_ok checked executable some_active factIds
      obtain ⟨r, attended, lists⟩ := lists_answersOver (c := c) checked made
      simp only [made, attended, ok_bind]
      split
      · rename_i abstains
        refine ⟨_, rfl, fun fine => ?_⟩
        have listed := lists (of_decide_eq_false fine)
        rw [amount_eq_empty (listed.eq_empty_iff.mp abstains) List.mem_cons_self]
        exact lists_empty
      · rename_i goes_on
        have listed := lists fun exhausted => goes_on exhausted.1
        have guarded : ∀ p ∈ q.answersOver c (q.active w),
            ∃ guard, hpltDerivationGuard p.2 q.guardOf = some guard := by
          intro p member
          rw [← isWorld, active_hdemWorld checked] at member
          exact exists_derivationGuard (holds_of_mem_closes checked member)
        obtain ⟨nonempty, adds⟩ := mem_itemsOf listed guarded
        have some_answer : (q.answersOver c (q.active w)).Nonempty := by
          refine Set.nonempty_iff_ne_empty.mpr fun none => goes_on ?_
          exact listed.eq_empty_iff.mpr none
        have something' : q.itemsOf r ≠ [] := by
          obtain ⟨p, member⟩ := some_answer
          obtain ⟨item, inItems, -⟩ := (adds (q.proved p)).mpr ⟨p, member, rfl⟩
          exact List.ne_nil_of_mem inItems
        obtain ⟨run, ran, lists'⟩ := ih
          (s := ⟨s.items ++ q.itemsOf r, s.totalChecks + r.candidateChecks,
            s.totalBytes + r.evidenceBytes⟩) later
          (fun item member => (List.mem_append.mp member).elim (each item) (nonempty item))
          (.inr fun none => something' (List.append_eq_nil_iff.mp none).2)
        refine ⟨run, ran, fun fine => ?_⟩
        have same : q.amount c (s.items ++ q.itemsOf r) ws = q.amount c s.items (w :: ws) := by
          ext p
          have new := adds p
          simp only [amount, Set.mem_ofPred_eq, forall_eq_or_imp, some_answer, true_and,
            List.mem_append, or_and_right, exists_or, new, List.mem_cons, exists_eq_left, or_assoc]
        rw [← same]
        exact lists' fine

theorem world_of_hdemWorld {a b : String → String} (world : q.World a)
    (same : hdemWorld q.problem a = hdemWorld q.problem b) : q.World b := by
  have values := assignment_of_hdemWorld same
  refine ⟨fun name known => ?_, fun k member => ?_⟩
  · rw [← values name known]
    exact world.1 name known
  · have row : HDEMProblem.rowOf k b = HDEMProblem.rowOf k a :=
      List.map_congr_left fun name inScope =>
        (values name (HDEMProblem.mem_names_of_scope member inScope)).symm
    rw [row]
    exact world.2 k member

theorem verdict_eq_empty {close : (String → String) → Set Answer}
    (none : (∀ a, ¬q.World a) ∨ ∃ a, q.World a ∧ close a = ∅) : q.verdict close = ∅ := by
  refine Set.eq_empty_iff_forall_notMem.mpr ?_
  rintro p ⟨all, a, world, -⟩
  rcases none with no_world | ⟨b, world', no_answer⟩
  · exact no_world a world
  · exact Set.not_nonempty_iff_eq_empty.mpr no_answer (all b world')

theorem amount_worlds (checked : q.Checked) (possible : ∀ w, w ∈ ws ↔ q.problem.Possible w) :
    q.amount c [] ws = q.verdict (q.closes c) := by
  have isWorld : ∀ a, q.World a ↔ hdemWorld q.problem a ∈ ws := by
    intro a
    rw [possible]
    constructor
    · exact fun world => ⟨a, world.1, world.2, rfl⟩
    · rintro ⟨b, assigns, satisfies, same⟩
      exact world_of_hdemWorld ⟨assigns, satisfies⟩ same
  have closes : ∀ a, q.answersOver c (q.active (hdemWorld q.problem a)) = q.closes c a := by
    intro a
    rw [active_hdemWorld checked]
    rfl
  have fromWorld : ∀ w ∈ ws, ∃ a, q.World a ∧ hdemWorld q.problem a = w := by
    intro w member
    obtain ⟨a, assigns, satisfies, same⟩ := (possible w).mp member
    exact ⟨a, ⟨assigns, satisfies⟩, same⟩
  ext p
  constructor
  · rintro ⟨all, none | ⟨w, member, inside⟩⟩
    · obtain ⟨item, member, -⟩ := none
      cases member
    · obtain ⟨a, world, rfl⟩ := fromWorld w member
      rw [closes] at inside
      refine ⟨fun b world' => ?_, a, world, inside⟩
      have some_answer := all _ ((isWorld b).mp world')
      rw [closes] at some_answer
      exact some_answer
  · rintro ⟨all, a, world, inside⟩
    refine ⟨fun w member => ?_, .inr ⟨_, (isWorld a).mp world, ?_⟩⟩
    · obtain ⟨b, world', rfl⟩ := fromWorld w member
      rw [closes]
      exact all b world'
    · rw [closes]
      exact inside

theorem overLattice_spec (checked : q.Checked) (executable : q.Executable) {lattice : HDEMResult}
    (possible : lattice.complete = true → ∀ w, w ∈ lattice.worlds ↔ q.problem.Possible w) :
    ∃ run, overLattice c q lattice = .ok run ∧ (run.exhausted = false →
      Lists run.result.state run.result.outputs (q.verdict (q.closes c))) := by
  unfold overLattice
  split
  · exact ⟨_, rfl, fun fine => (by cases fine)⟩
  · rename_i complete
    have possible := possible (not_not.mp complete)
    split
    · rename_i none
      refine ⟨_, rfl, fun _ => ?_⟩
      have no_world : ∀ a, ¬q.World a := by
        intro a world
        have inside := (possible (hdemWorld q.problem a)).mpr ⟨a, world.1, world.2, rfl⟩
        rw [none] at inside
        cases inside
      rw [verdict_eq_empty (.inl no_world)]
      exact lists_empty
    · rename_i some_world
      obtain ⟨run, ran, lists⟩ := overWorlds_spec c lattice
        (s := ⟨[], 0, 0⟩) checked executable
        (fun w member => by
          obtain ⟨a, -, -, same⟩ := (possible w).mp member
          exact ⟨a, same⟩)
        (List.forall_mem_nil _) (.inl some_world)
      refine ⟨run, ran, fun fine => ?_⟩
      rw [← amount_worlds checked possible]
      exact lists fine

def Live (q : HPLTQuery) (p : Answer) (guard : Guard) : Prop :=
  hpltDerivationGuard p.2 q.guardOf = some guard ∧ ∃ a, q.World a ∧ guard.Holds a

theorem free_nil_iff {a : String → String} :
    q.problem.Assigns a ∧ Free q.problem [] a ↔ q.World a := by
  simp [Free, World]

variable {paths : Nat × Nat}

theorem of_cover (checked : q.Checked) {s s' : Coverage} (ok : cover c q paths s p = .ok s') :
    (∀ guard, guard ∈ s'.live ↔ guard ∈ s.live ∨ q.Live p guard) ∧
      ∀ item, item ∈ s'.items ↔ item ∈ s.items ∨
        ∃ guard, q.Live p guard ∧ item = (p.1, [proofOf q.problem p.2 guard]) := by
  unfold cover at ok
  split at ok
  · rename_i none
    cases ok
    have dead : ∀ guard, ¬q.Live p guard := by
      rintro guard ⟨found, -⟩
      rw [none] at found
      cases found
    simp [dead]
  · rename_i guard found
    obtain ⟨finds, fails⟩ := hpltFindWorld_spec q.problem guard [] q.maxLatticeStates
      (List.forall_mem_nil _) (known_derivationGuard checked found)
    have only : ∀ other, q.Live p other → other = guard := by
      rintro other ⟨found', -⟩
      exact Option.some.inj (found'.symm.trans found)
    simp only at ok
    split at ok
    · cases ok
    · rename_i complete
      have complete := not_not.mp complete
      split at ok
      · rename_i none
        cases ok
        have dead : ∀ other, ¬q.Live p other := by
          intro other live
          obtain rfl := only other live
          obtain ⟨-, a, world, holds⟩ := live
          exact fails none complete a world.1 holds (free_nil_iff.mpr world).2
        simp [dead]
      · rename_i some_world
        cases ok
        obtain ⟨w, witness⟩ := Option.ne_none_iff_exists'.mp some_world
        obtain ⟨a, assigns, holds, free⟩ := finds w witness
        have live : q.Live p guard := ⟨found, a, free_nil_iff.mp ⟨assigns, free⟩, holds⟩
        constructor
        · intro other
          rw [List.mem_append, List.mem_singleton]
          refine or_congr_right ⟨fun same => same ▸ live, only other⟩
        · intro item
          rw [List.mem_append, List.mem_singleton]
          refine or_congr_right ⟨fun same => ⟨guard, live, same⟩, ?_⟩
          rintro ⟨other, live', rfl⟩
          rw [only other live']

theorem of_covers (checked : q.Checked) {l : List Answer} {s last : Coverage}
    (ok : l.foldlM (cover c q paths) s = .ok last) :
    (∀ guard, guard ∈ last.live ↔ guard ∈ s.live ∨ ∃ p ∈ l, q.Live p guard) ∧
      ∀ item, item ∈ last.items ↔ item ∈ s.items ∨ ∃ p ∈ l,
        ∃ guard, q.Live p guard ∧ item = (p.1, [proofOf q.problem p.2 guard]) := by
  induction l generalizing s with
  | nil =>
    cases ok
    simp
  | cons p l ih =>
    rw [List.foldlM_cons, bind_eq_ok] at ok
    obtain ⟨next, first, rest⟩ := ok
    obtain ⟨live, items⟩ := of_cover checked first
    obtain ⟨live', items'⟩ := ih rest
    simp only [live', live, items', items, List.mem_cons, exists_eq_or_imp, or_assoc,
      implies_true, and_self]

theorem mem_closesJointly {a : String → String} : p ∈ q.closesJointly c a ↔
    p ∈ q.answersOver c (q.guardedFacts.map HPLTGuardedFact.fact) ∧
      ∃ guard, hpltDerivationGuard p.2 q.guardOf = some guard ∧ guard.Holds a := by
  refine and_congr_right fun _ => ⟨fun holds => ?_, ?_⟩
  · obtain ⟨guard, found⟩ := exists_derivationGuard holds
    exact ⟨guard, found, (holds_derivationGuard found).1.mpr holds⟩
  · rintro ⟨guard, found, holds⟩
    exact (holds_derivationGuard found).1.mp holds

/-- The derivations over all facts are covered: those that are live, with their guards and
proofs. -/
structure Covers (c : Crypto) (q : HPLTQuery) (s : Coverage) : Prop where
  live : ∀ guard, guard ∈ s.live ↔
    ∃ p ∈ q.answersOver c (q.guardedFacts.map HPLTGuardedFact.fact), q.Live p guard
  items : ∀ item, item ∈ s.items ↔
    ∃ p ∈ q.answersOver c (q.guardedFacts.map HPLTGuardedFact.fact),
      ∃ guard, q.Live p guard ∧ item = (p.1, [proofOf q.problem p.2 guard])

theorem Covers.closes_iff (covers : Covers c q s) {a : String → String} (world : q.World a) :
    (q.closesJointly c a).Nonempty ↔ ∃ guard ∈ s.live, guard.Holds a := by
  constructor
  · rintro ⟨p, member⟩
    obtain ⟨inside, guard, found, holds⟩ := mem_closesJointly.mp member
    exact ⟨guard, (covers.live guard).mpr ⟨p, inside, found, a, world, holds⟩, holds⟩
  · rintro ⟨guard, member, holds⟩
    obtain ⟨p, inside, found, -⟩ := (covers.live guard).mp member
    exact ⟨p, mem_closesJointly.mpr ⟨inside, guard, found, holds⟩⟩

theorem Covers.verdict_eq_empty (covers : Covers c q s) {a : String → String} (world : q.World a)
    (missed : ∀ guard ∈ s.live, ¬guard.Holds a) : q.verdict (q.closesJointly c) = ∅ := by
  refine HPLTQuery.verdict_eq_empty (.inr ⟨a, world, ?_⟩)
  refine Set.not_nonempty_iff_eq_empty.mp fun some_answer => ?_
  obtain ⟨guard, member, holds⟩ := (covers.closes_iff world).mp some_answer
  exact missed guard member holds

theorem Covers.known (covers : Covers c q s) (checked : q.Checked) :
    ∀ guard ∈ sortedSet (fun guard : Guard => guard.map toLex) s.live, guard.Known q.problem := by
  intro guard member
  obtain ⟨p, -, found, -⟩ := (covers.live guard).mp (Lib.mem_sortedSet.mp member)
  exact known_derivationGuard checked found

theorem Covers.lists (covers : Covers c q s) (some_live : s.live ≠ [])
    (all : ∀ a, q.World a → (q.closesJointly c a).Nonempty) :
    Lists (stateOf (outputsOf s.items)) (outputsOf s.items) (q.verdict (q.closesJointly c)) := by
  have some_item : s.items ≠ [] := by
    obtain ⟨guard, member⟩ := List.exists_mem_of_ne_nil _ some_live
    obtain ⟨p, inside, lives⟩ := (covers.live guard).mp member
    exact List.ne_nil_of_mem ((covers.items _).mpr ⟨p, inside, guard, lives, rfl⟩)
  have each : ∀ item ∈ s.items, item.2 ≠ [] := by
    intro item member
    obtain ⟨p, -, guard, -, rfl⟩ := (covers.items item).mp member
    exact List.cons_ne_nil _ _
  have same : q.verdict (q.closesJointly c) =
      {p | ∃ item ∈ s.items, item.1 = p.1 ∧ p.2 ∈ item.2} := by
    ext ⟨values, proof⟩
    constructor
    · rintro ⟨-, b, world, ⟨p, member, same⟩⟩
      obtain ⟨inside, guard, found, holds⟩ := mem_closesJointly.mp member
      cases same
      refine ⟨_, (covers.items _).mpr ⟨p, inside, guard, ⟨found, b, world, holds⟩, rfl⟩, rfl, ?_⟩
      rw [found]
      exact List.mem_singleton_self _
    · rintro ⟨_, member, alike, inside⟩
      obtain ⟨p, inAnswers, guard, ⟨found, b, world, holds⟩, rfl⟩ := (covers.items _).mp member
      refine ⟨all, b, world, p, mem_closesJointly.mpr ⟨inAnswers, guard, found, holds⟩, ?_⟩
      rw [proved, found]
      exact Prod.ext alike (List.mem_singleton.mp inside).symm
  rw [same]
  exact lists_outputsOf some_item each

theorem symbolic_spec (checked : q.Checked) (executable : q.Executable) :
    ∃ run, symbolic c q = .ok run ∧ (run.exhausted = false →
      Lists run.result.state run.result.outputs (q.verdict (q.closesJointly c))) := by
  obtain ⟨finds, fails⟩ := hpltFindWorld_spec q.problem [] [] q.maxLatticeStates
    (List.forall_mem_nil _) (List.forall_mem_nil _)
  unfold symbolic
  simp only
  split
  · exact ⟨_, rfl, fun fine => (by cases fine)⟩
  · rename_i complete
    split
    · rename_i none
      refine ⟨_, rfl, fun _ => ?_⟩
      have no_world : ∀ a, ¬q.World a := fun a world =>
        fails none (not_not.mp complete) a world.1 (List.forall_mem_nil _)
          (free_nil_iff.mpr world).2
      rw [verdict_eq_empty (.inl no_world)]
      exact lists_empty
    · rename_i some_world
      obtain ⟨w, witness⟩ := Option.ne_none_iff_exists'.mp some_world
      obtain ⟨a, assigns, -, free⟩ := finds w witness
      have world : q.World a := free_nil_iff.mp ⟨assigns, free⟩
      obtain ⟨executor, made⟩ := executor_ok checked executable
        (by simpa using checked.supplied.1) (factIds_all checked)
      obtain ⟨r, attended, lists⟩ := lists_answersOver (c := c) checked made
      simp only [made, attended, ok_bind]
      split
      · rename_i abstains
        refine ⟨_, rfl, fun fine => ?_⟩
        have listed := lists (of_decide_eq_false fine)
        have none : q.closesJointly c a = ∅ := by
          refine Set.eq_empty_iff_forall_notMem.mpr ?_
          rintro p ⟨member, -⟩
          rw [listed.eq_empty_iff.mp abstains] at member
          exact member
        rw [verdict_eq_empty (.inr ⟨a, world, none⟩)]
        exact lists_empty
      · rename_i goes_on
        have listed := lists fun exhausted => goes_on exhausted.1
        split
        · exact ⟨_, rfl, fun fine => (by cases fine)⟩
        · rename_i s covered
          have covers : Covers c q s := by
            obtain ⟨live, items⟩ := of_covers checked covered
            simp only [List.not_mem_nil, false_or, listed.mem_paths] at live items
            exact ⟨live, items⟩
          split
          · rename_i none_live
            refine ⟨_, rfl, fun _ => ?_⟩
            rw [covers.verdict_eq_empty world fun guard member => by
              rw [none_live] at member
              cases member]
            exact lists_empty
          · rename_i some_live
            obtain ⟨finds', fails'⟩ := hpltFindWorld_spec q.problem [] _ q.maxLatticeStates
              (covers.known checked) (List.forall_mem_nil _)
            split
            · exact ⟨_, rfl, fun fine => (by cases fine)⟩
            · rename_i complete'
              split
              · rename_i some_uncovered
                refine ⟨_, rfl, fun _ => ?_⟩
                obtain ⟨w', witness'⟩ := Option.ne_none_iff_exists'.mp some_uncovered
                obtain ⟨b, assigns', -, free'⟩ := finds' w' witness'
                rw [covers.verdict_eq_empty ⟨assigns', free'.1⟩ fun guard member =>
                  free'.2 guard (Lib.mem_sortedSet.mpr member)]
                exact lists_empty
              · rename_i all_covered
                refine ⟨_, rfl, fun _ => covers.lists some_live fun b world' => ?_⟩
                rw [covers.closes_iff world']
                by_contra missed
                refine fails' (not_not.mp all_covered) (not_not.mp complete') b world'.1
                  (List.forall_mem_nil _) ⟨world'.2, fun guard member holds => missed ?_⟩
                exact ⟨guard, Lib.mem_sortedSet.mp member, holds⟩

end

end HPLTQuery

end ProofRay.Attention
