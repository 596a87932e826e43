/- The depth-first evaluation of a conjunctive program: an agenda of derivations, each with a goal
   of its own choice next. -/

import ProofRay.Attention.Environments
import Mathlib.Data.List.MinMax

namespace ProofRay.Attention

open Engine (Crypto PyError)
open Lib (grouped sortedSet)
open Lib.Guard
open Lib.Worklist (Faithful denotes)
open Sidecar (Canonical)

/-- A state and outputs list answers: the outputs are their groups in order, and the state is what
there are of them. -/
structure Lists (state : ProofState) (outputs : List SigmaPBAOutput) (listed : Set Answer) :
    Prop where
  groups : ∃ pairs : List Answer, (∀ p, p ∈ pairs ↔ p ∈ listed) ∧
    outputs = (grouped pairs).map fun group => ⟨group.1, group.2⟩
  counted : state = if outputs = [] then .abstain else
    if outputs.length = 1 then .resolved else .contested

section

variable {state state' : ProofState} {outputs outputs' : List SigmaPBAOutput}
  {listed : Set Answer}

theorem Lists.values (lists : Lists state outputs listed) (values : List String) :
    (∃ o ∈ outputs, o.values = values) ↔ ∃ ids, (values, ids) ∈ listed := by
  obtain ⟨pairs, same, groups⟩ := lists.groups
  have keys : (∃ o ∈ outputs, o.values = values) ↔
      values ∈ (grouped pairs).map Prod.fst := by
    rw [groups]
    simp
  rw [keys, Lib.mem_keys_grouped]
  exact exists_congr fun ids => same _

theorem Lists.provenance (lists : Lists state outputs listed) :
    ∀ o ∈ outputs, ∀ ids, ids ∈ o.provenance ↔ (o.values, ids) ∈ listed := by
  obtain ⟨pairs, same, groups⟩ := lists.groups
  rw [groups]
  intro o member ids
  obtain ⟨group, inGroups, rfl⟩ := List.mem_map.mp member
  rw [(Lib.mem_grouped inGroups).2, same]

theorem Lists.mem_paths (lists : Lists state outputs listed) (p : Answer) :
    p ∈ (outputs.flatMap fun o => o.provenance.map fun monomial => (o.values, monomial)) ↔
      p ∈ listed := by
  rw [List.mem_flatMap]
  constructor
  · rintro ⟨o, member, inside⟩
    obtain ⟨monomial, inProvenance, rfl⟩ := List.mem_map.mp inside
    exact (lists.provenance o member monomial).mp inProvenance
  · intro inListed
    obtain ⟨o, member, same⟩ := (lists.values p.1).mpr ⟨p.2, inListed⟩
    refine ⟨o, member, List.mem_map.mpr ⟨p.2, ?_, Prod.ext same rfl⟩⟩
    rw [lists.provenance o member, same]
    exact inListed

theorem Lists.eq_empty_iff (lists : Lists state outputs listed) :
    state = .abstain ↔ listed = ∅ := by
  have none : outputs = [] ↔ listed = ∅ := by
    constructor
    · intro none
      refine Set.eq_empty_iff_forall_notMem.mpr fun p member => ?_
      obtain ⟨o, inOutputs, -⟩ := (lists.values p.1).mpr ⟨p.2, member⟩
      rw [none] at inOutputs
      cases inOutputs
    · rintro rfl
      refine List.eq_nil_iff_forall_not_mem.mpr fun o inOutputs => ?_
      obtain ⟨ids, member⟩ := (lists.values o.values).mp ⟨o, inOutputs, rfl⟩
      exact member
  rw [← none, lists.counted]
  by_cases empty : outputs = []
  · simp [empty]
  · rw [if_neg empty]
    split
    · simp [empty]
    · simp [empty]

theorem Lists.nodup (lists : Lists state outputs listed) :
    (outputs.map SigmaPBAOutput.values).Nodup := by
  obtain ⟨pairs, -, groups⟩ := lists.groups
  have keys : outputs.map SigmaPBAOutput.values = (grouped pairs).map Prod.fst := by
    rw [groups, List.map_map]
    rfl
  rw [keys]
  exact Lib.nodup_keys_grouped

theorem Lists.resolved_iff (lists : Lists state outputs listed) {values : List String} :
    (state = .resolved ∧ outputs.map SigmaPBAOutput.values = [values]) ↔
      ∀ v, (∃ ids, (v, ids) ∈ listed) ↔ v = values := by
  have mem : ∀ v, v ∈ outputs.map SigmaPBAOutput.values ↔ ∃ ids, (v, ids) ∈ listed := by
    intro v
    rw [← lists.values, List.mem_map]
  constructor
  · rintro ⟨-, one⟩ v
    rw [← mem, one, List.mem_singleton]
  · intro only
    have one : outputs.map SigmaPBAOutput.values = [values] := by
      refine List.perm_singleton.mp
        ((List.perm_ext_iff_of_nodup lists.nodup (List.nodup_singleton values)).mpr fun v => ?_)
      rw [mem, only, List.mem_singleton]
    have length : outputs.length = 1 := by
      simpa using congrArg List.length one
    have some_output : outputs ≠ [] := by
      rintro rfl
      cases length
    rw [lists.counted, if_neg some_output, if_pos length]
    exact ⟨rfl, one⟩

theorem Lists.unique (lists : Lists state outputs listed) (lists' : Lists state' outputs' listed) :
    state = state' ∧ outputs = outputs' := by
  have same : outputs = outputs' := by
    obtain ⟨pairs, mem, groups⟩ := lists.groups
    obtain ⟨pairs', mem', groups'⟩ := lists'.groups
    have alike : grouped pairs = grouped pairs' :=
      Lib.grouped_congr fun p => (mem p).trans (mem' p).symm
    rw [groups, groups', alike]
  refine ⟨?_, same⟩
  rw [lists.counted, lists'.counted, same]

theorem Lists.checked (lists : Lists state outputs listed)
    (monomials : ∀ p ∈ listed, p.2 ≠ [] ∧ Canonical p.2) : ∀ o ∈ outputs, o.Checked := by
  obtain ⟨pairs, same, groups⟩ := lists.groups
  rw [groups]
  intro o member
  obtain ⟨group, inGroups, rfl⟩ := List.mem_map.mp member
  obtain ⟨⟨ids, inPairs⟩, listing⟩ := Lib.mem_grouped inGroups
  exact ⟨List.ne_nil_of_mem ((listing ids).mpr inPairs),
    Lib.pairwise_of_mem_grouped inGroups,
    fun m inGroup => monomials _ ((same _).mp ((listing m).mp inGroup))⟩

theorem lists_empty : Lists .abstain [] ∅ :=
  ⟨⟨[], fun p => iff_of_false List.not_mem_nil (Set.notMem_empty p), rfl⟩, rfl⟩

end

def SigmaPBAResult.Lists (r : SigmaPBAResult) (listed : Set Answer) : Prop :=
  Attention.Lists r.state r.outputs listed

section

variable {c : Crypto} {executor : SigmaPBAExecutor} {program : ConjunctiveProgram}
  {complete : List Environment} {s : Spending} {environments : Nat}

variable {ids : Environment → List Int}

private theorem mem_complete_pairs
    (fit : ∀ e ∈ complete, e.Fit executor program [] ∧ ids e = e.factIds) (answer : Answer) :
    (answer ∈ complete.filterMap fun e =>
        (program.outputVariables.mapM e.binding.get).map fun values => (values, ids e)) ↔
      answer ∈ denotes (meaning c executor program []) complete := by
  rw [List.mem_filterMap]
  refine exists_congr fun e => and_congr_right fun member => ?_
  obtain ⟨here, same⟩ := fit e member
  obtain ⟨values, found, means⟩ := meaning_complete (c := c) here
  rw [found, means, same, Option.map_some, Option.some.injEq, Set.mem_singleton_iff]
  exact eq_comm

theorem lists_finish (c : Crypto) (executor : SigmaPBAExecutor) {listed : Set Answer}
    (fit : ∀ e ∈ complete, e.Fit executor program [] ∧ ids e = e.factIds)
    (means : denotes (meaning c executor program []) complete = listed) :
    (finish program ids complete s environments).Lists listed := by
  have mem : ∀ p, _ ↔ p ∈ listed := fun p => (mem_complete_pairs (c := c) fit p).trans
    (means ▸ Iff.rfl)
  unfold finish
  simp only
  split
  · rename_i none
    exact ⟨⟨_, mem, by rw [none]; rfl⟩, rfl⟩
  · rename_i some_group
    refine ⟨⟨_, mem, rfl⟩, ?_⟩
    simp only [List.map_eq_nil_iff]
    exact (if_neg some_group).symm

end

/-- `_Derivation`. -/
structure Derivation extends Environment where
  remaining : List Nat
  deriving DecidableEq, Repr

namespace Derivation

def key (d : Derivation) : List Nat ×ₗ (List (String ×ₗ String) ×ₗ (List Int ×ₗ List String)) :=
  toLex (d.remaining, toLex (d.bindings.map toLex, toLex (d.factIds, d.assumptions)))

def start (program : ConjunctiveProgram) : Derivation :=
  ⟨.empty, List.range program.goals.length⟩

end Derivation

section

variable (c : Crypto) (executor : SigmaPBAExecutor) (program : ConjunctiveProgram) (b : Budgets)

/-- What a goal is chosen by: the arguments that are known, the facts that may answer it, and its
place. -/
abbrev Priority := Nat ×ₗ (Int ×ₗ Int)

abbrev priorityOrder : LinearOrder Priority :=
  @Prod.Lex.instLinearOrder Nat (Int ×ₗ Int) Nat.instLinearOrder
    (@Prod.Lex.instLinearOrder Int Int Int.instLinearOrder Int.instLinearOrder)

def priority (known : String → Bool) (i : Nat) : Priority :=
  let goal := program.goals[i]?
  toLex ((goal.map fun g => (g.arguments.filter known).length).getD 0,
    toLex (-((goal.map fun g => (executor.index c g.predicate g.arguments.length).length).getD 0 :
      Nat), -(i : Int)))

def foremost (known : String → Bool) (remaining : List Nat) : Option Nat :=
  @List.argmax Nat Priority priorityOrder.toPartialOrder.toPreorder priorityOrder.toDecidableLT
    (priority c executor program known) remaining

/-- `SigmaPBAExecutor._goal_order`. -/
def goalOrder (d : Derivation) : Option Nat :=
  foremost c executor program (fun x => !isVariable x || (d.binding.get x).isSome) d.remaining

abbrev Progress := Spending × Nat

/-- The body of the loop: the goal that a derivation chooses, and the derivations that answer it.
The agenda has its last entry in front. -/
def expand (p : Progress) (d : Derivation) : Except SigmaPBAResult (Progress × List Derivation) :=
  match goalOrder c executor program d with
  | none => .ok (p, [])
  | some i =>
    match program.goals[i]? with
    | none => .ok (p, [])
    | some goal => do
      let (s, expanded) ← joinFacts executor b p.2 goal.arguments d.toEnvironment
        (executor.index c goal.predicate goal.arguments.length) p.1
      let environments := p.2 + expanded.length
      if environments > b.maxEnvironments then
        .error (s.abstain p.2 "environment_budget_exhausted")
      else
        let children := expanded.map fun e => Derivation.mk e (without d.remaining i)
        let unique := children.reverse.dedup.reverse
        .ok ((s, environments), (unique.insertionSort fun a b => b.key ≤ a.key).reverse)

/-- `SigmaPBAExecutor.execute`. -/
def execute : Except PyError SigmaPBAResult :=
  if b.Positive then
    if (program.goals.length : Int) > b.maxHops then
      .ok (Spending.none.abstain 1 "hop_budget_exceeded")
    else
      -- every derivation but the first takes an environment of the budget
      match Lib.Worklist.run (fun d => d.remaining.isEmpty) (expand c executor program b)
          b.maxEnvironments.toNat [.start program] [] (Spending.none, 1) with
      | .error r => .ok r
      | .ok ([], s, environments) =>
        .ok (s.abstain environments "no_complete_authorized_environment")
      | .ok (completed, s, environments) =>
        .ok (finish program (fun e => sortedSet id e.factIds)
          (completed.map Derivation.toEnvironment) s environments)
  else .error (.valueError "Sigma-PBA budgets must be positive")

end

section

variable {c : Crypto} {executor : SigmaPBAExecutor} {program : ConjunctiveProgram} {b : Budgets}

def Derivation.Fit (executor : SigmaPBAExecutor) (program : ConjunctiveProgram) (d : Derivation) :
    Prop :=
  d.toEnvironment.Fit executor program d.remaining ∧ ∀ i ∈ d.remaining, i < program.goals.length

def Derivation.answers (c : Crypto) (executor : SigmaPBAExecutor) (program : ConjunctiveProgram)
    (d : Derivation) : Set Answer := meaning c executor program d.remaining d.toEnvironment

variable {d : Derivation}

variable {children : List Derivation} {p p' : Progress}

theorem of_expand (fit : d.Fit executor program) (waits : d.remaining ≠ [])
    (ok : expand c executor program b p d = .ok (p', children)) :
    ∃ i ∈ d.remaining, ∃ goal, program.goals[i]? = some goal ∧
      ∀ m, m ∈ children ↔ ∃ e ∈ expansion c executor goal d.toEnvironment,
        ⟨e, without d.remaining i⟩ = m := by
  unfold expand at ok
  cases chosen : goalOrder c executor program d with
  | none => exact absurd (List.argmax_eq_none.mp chosen) waits
  | some i =>
    have member : i ∈ d.remaining := List.argmax_mem chosen
    have here := List.getElem?_eq_getElem (fit.2 i member)
    rw [chosen] at ok
    simp only [here, bind_eq_ok, Prod.exists] at ok
    obtain ⟨s, expanded, joined, rest⟩ := ok
    split at rest
    · cases rest
    · cases rest
      refine ⟨i, member, _, here, fun m => ?_⟩
      rw [List.mem_reverse, List.mem_insertionSort, List.mem_reverse, List.mem_dedup,
        List.mem_reverse, List.mem_map, of_joinFacts joined]
      rfl

theorem bounded_expand (ok : expand c executor program b p d = .ok (p', children)) :
    children.length + (b.maxEnvironments.toNat - p'.2) ≤ b.maxEnvironments.toNat - p.2 := by
  unfold expand at ok
  split at ok
  · cases ok
    simp
  · rename_i i _
    split at ok
    · cases ok
      simp
    · simp only [bind_eq_ok, Prod.exists] at ok
      obtain ⟨s, expanded, -, rest⟩ := ok
      split at rest
      · cases rest
      · rename_i within
        cases rest
        have fewer := (List.dedup_sublist
          (expanded.map fun e => Derivation.mk e (without d.remaining i)).reverse).length_le
        rw [List.length_reverse, List.length_map] at fewer
        rw [List.length_reverse, List.length_insertionSort, List.length_reverse]
        simp only
        omega

theorem exhausted_of_expand {p : Progress} {r : SigmaPBAResult}
    (stopped : expand c executor program b p d = .error r) : r.Exhausted := by
  unfold expand at stopped
  split at stopped
  · cases stopped
  · split at stopped
    · cases stopped
    · simp only [bind_eq_error, Prod.exists] at stopped
      rcases stopped with here | ⟨s, expanded, -, later⟩
      · exact exhausted_of_joinFacts here
      · split at later
        · cases later
          simp [SigmaPBAResult.Exhausted, Spending.abstain]
        · cases later

theorem faithful_expand : Faithful (fun d => d.remaining.isEmpty) (expand c executor program b)
    (Derivation.Fit executor program) (Derivation.answers c executor program)
    fun p => b.maxEnvironments.toNat - p.2 := by
  have open_ : ∀ {d : Derivation}, d.remaining.isEmpty = false → d.remaining ≠ [] := by
    intro d waits none
    rw [none] at waits
    cases waits
  refine ⟨fun p d p' children fit waits ok m member => ?_,
    fun p d p' children fit waits ok => ?_, fun p d p' children ok => bounded_expand ok⟩
  · obtain ⟨i, inside, goal, here, all⟩ := of_expand fit (open_ waits) ok
    obtain ⟨e, inExpansion, rfl⟩ := (all m).mp member
    exact ⟨fit_of_expansion fit.1 here inExpansion,
      fun j remains => fit.2 j (mem_without.mp remains).1⟩
  · obtain ⟨i, inside, goal, here, all⟩ := of_expand fit (open_ waits) ok
    rw [Derivation.answers, ← denotes_expansion fit.1 inside here]
    ext answer
    constructor
    · rintro ⟨m, member, means⟩
      obtain ⟨e, inExpansion, rfl⟩ := (all m).mp member
      exact ⟨e, inExpansion, means⟩
    · rintro ⟨e, inExpansion, means⟩
      exact ⟨_, (all _).mpr ⟨e, inExpansion, rfl⟩, means⟩

theorem lists_execute (c : Crypto) (executor : SigmaPBAExecutor) (program : ConjunctiveProgram)
    (positive : b.Positive) :
    ∃ r, execute c executor program b = .ok r ∧
      (¬r.Exhausted → r.Lists (answers c executor program)) := by
  unfold execute
  rw [if_pos positive]
  split
  · refine ⟨_, rfl, fun within => absurd ?_ within⟩
    simp [SigmaPBAResult.Exhausted, Spending.abstain]
  · have first : Derivation.Fit executor program (.start program) :=
      ⟨fit_empty executor.noEmptyNogood, fun i => List.mem_range.mp⟩
    have enough : [Derivation.start program].length +
        (b.maxEnvironments.toNat - ((Spending.none, 1) : Progress).2) ≤
          b.maxEnvironments.toNat := by
      have := positive.2.2.2
      simp only [List.length_singleton]
      omega
    cases ran : Lib.Worklist.run (fun d => d.remaining.isEmpty) (expand c executor program b)
        b.maxEnvironments.toNat [.start program] [] (Spending.none, 1) with
    | error r =>
      obtain ⟨p, d, stopped⟩ := Lib.Worklist.of_run_error ran
      exact ⟨r, rfl, absurd (exhausted_of_expand stopped)⟩
    | ok last =>
      obtain ⟨completed, s, environments⟩ := last
      obtain ⟨done, means⟩ := Lib.Worklist.run_denotes faithful_expand enough
        (List.forall_mem_singleton.mpr first) (List.forall_mem_nil _) ran
      have all : denotes (Derivation.answers c executor program) completed =
          answers c executor program := by
        rw [means, Lib.Worklist.denotes_cons, Lib.Worklist.denotes_nil, Set.union_empty,
          Set.union_empty]
        exact meaning_empty
      cases completed with
      | nil =>
        refine ⟨_, rfl, fun _ => ?_⟩
        rw [← all, Lib.Worklist.denotes_nil]
        exact lists_empty
      | cons d completed =>
        refine ⟨_, rfl, fun _ => lists_finish c executor ?_ ?_⟩
        · intro e member
          obtain ⟨d', inside, rfl⟩ := List.mem_map.mp member
          obtain ⟨fit, none_left⟩ := done d' inside
          have none : d'.remaining = [] := List.isEmpty_iff.mp none_left
          have complete := fit.1
          rw [none] at complete
          exact ⟨complete, Lib.sortedSet_of_pairwise Function.injective_id complete.ordered⟩
        · rw [← all]
          ext answer
          constructor
          · rintro ⟨e, member, meant⟩
            obtain ⟨d', inside, rfl⟩ := List.mem_map.mp member
            have none : d'.remaining = [] := List.isEmpty_iff.mp (done d' inside).2
            refine ⟨d', inside, ?_⟩
            rw [Derivation.answers, none]
            exact meant
          · rintro ⟨d', inside, meant⟩
            have none : d'.remaining = [] := List.isEmpty_iff.mp (done d' inside).2
            rw [Derivation.answers, none] at meant
            exact ⟨_, List.mem_map_of_mem inside, meant⟩

end

end ProofRay.Attention
