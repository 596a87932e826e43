/- Generalized arc consistency over extensional relations: passes of revisions to a fixed point lose
   no satisfying assignment. -/

import Mathlib.Algebra.Order.BigOperators.Group.List
import ProofRay.Hdem.Problem
import ProofRay.Lib.Saturation

namespace ProofRay.Hdem

open Lib.ConstraintNet
open Lib.Saturation

/-- `domains`: the values left to each name. -/
abbrev Domains := String → List String

/-- A position of a constraint, with the name that stands there. -/
structure Arc where
  constraint : HDEMConstraint
  position : Nat
  name : String

def HDEMProblem.arcs (problem : HDEMProblem) : List Arc :=
  problem.constraints.flatMap fun k => k.vars.zipIdx.map fun p => ⟨k, p.2, p.1⟩

/-- `supported`: the values at a position in the rows that are still allowed. -/
def supportedAt (domains : Domains) (arc : Arc) : List String :=
  (arc.constraint.allowed.filter fun row =>
    ∀ p ∈ arc.constraint.vars.zip row, p.2 ∈ domains p.1).map fun row => row.getD arc.position ""

def leftAt (domains : Domains) (arc : Arc) : List String :=
  (domains arc.name).filter fun value => value ∈ supportedAt domains arc

/-- The domains of a propagation, and how many values it has pruned. -/
structure Pruning where
  domains : Domains
  pruned : Nat

/-- One revision: the values of a name that no row supports go; it stops when none is left. -/
def prune (arc : Arc) (s : Pruning) : Except Nat (Option Pruning) :=
  let supported := supportedAt s.domains arc
  let remove := (s.domains arc.name).filter fun value => value ∉ supported
  if remove = [] then .ok none
  else
    let left := leftAt s.domains arc
    let pruned := s.pruned + remove.length
    if left = [] then .error pruned
    else .ok (some ⟨Function.update s.domains arc.name left, pruned⟩)

def size (problem : HDEMProblem) (domains : Domains) : Nat :=
  (problem.names.map fun name => (domains name).length).sum

/-- `_hdem_propagate`: the values left, or how many were pruned when a domain ran empty. -/
def hdemPropagate (problem : HDEMProblem) (domains : Domains) : Except Nat Pruning :=
  saturate prune problem.arcs (size problem domains + 1) ⟨domains, 0⟩

section

variable {problem : HDEMProblem} {domains domains' : Domains} {name : String} {left : List String}

theorem size_update_lt (known : name ∈ problem.names)
    (fewer : left.length < (domains name).length) :
    size problem (Function.update domains name left) < size problem domains := by
  refine List.sum_lt_sum _ _ (fun other _ => ?_) ⟨name, known, ?_⟩
  · by_cases same : other = name
    · subst same
      rw [Function.update_self]
      exact fewer.le
    · rw [Function.update_of_ne same]
  · rw [Function.update_self]
    exact fewer

theorem size_le (smaller : ∀ name ∈ problem.names, (domains name).length ≤ (domains' name).length) :
    size problem domains ≤ size problem domains' :=
  List.sum_le_sum fun name member => smaller name member

end

section

variable {problem : HDEMProblem} {domains : Domains} {arc : Arc} {value : String}

theorem mem_arcs : arc ∈ problem.arcs ↔ arc.constraint ∈ problem.constraints ∧
    arc.constraint.vars[arc.position]? = some arc.name := by
  obtain ⟨k, position, name⟩ := arc
  simp only [HDEMProblem.arcs, List.mem_flatMap, List.mem_map, Arc.mk.injEq, Prod.exists,
    List.mk_mem_zipIdx_iff_getElem?]
  constructor
  · rintro ⟨k', member, _, _, found, rfl, rfl, rfl⟩
    exact ⟨member, found⟩
  · rintro ⟨member, found⟩
    exact ⟨k, member, name, position, found, rfl, rfl, rfl⟩

theorem mem_names_of_arc (member : arc ∈ problem.arcs) : arc.name ∈ problem.names :=
  problem.known _ (mem_arcs.mp member).1 _ (List.mem_of_getElem? (mem_arcs.mp member).2)

theorem exists_arc {k : HDEMConstraint} (member : k ∈ problem.constraints) {name : String}
    (inScope : name ∈ k.vars) : ∃ arc ∈ problem.arcs, arc.constraint = k ∧ arc.name = name := by
  obtain ⟨position, found⟩ := List.mem_iff_getElem?.mp inScope
  exact ⟨⟨k, position, name⟩, mem_arcs.mpr ⟨member, found⟩, rfl, rfl⟩

theorem mem_supportedAt (member : arc ∈ problem.arcs) : value ∈ supportedAt domains arc ↔
    Supported arc.constraint.condition (problem.space domains) arc.name value := by
  obtain ⟨inProblem, place⟩ := mem_arcs.mp member
  have nodup := arc.constraint.named.2.2
  have at_place (a : String → String) :
      (HDEMProblem.rowOf arc.constraint a).getD arc.position "" = a arc.name := by
    simp [HDEMProblem.rowOf, List.getD, place]
  simp only [supportedAt, List.mem_map, List.mem_filter, decide_eq_true_eq]
  constructor
  · rintro ⟨row, ⟨allowed, within⟩, rfl⟩
    have length := arc.constraint.relation.2.2 row allowed
    have again : HDEMProblem.rowOf arc.constraint (zipped arc.constraint.vars row) = row :=
      map_zipped nodup length
    refine ⟨zipped arc.constraint.vars row, ?_, fun name inScope _ => ?_, ?_⟩
    · show HDEMProblem.rowOf arc.constraint (zipped arc.constraint.vars row) ∈ _
      rw [again]
      exact allowed
    · exact within (name, _) ((mem_zip_iff nodup length).mpr ⟨inScope, rfl⟩)
    · rw [← at_place (zipped arc.constraint.vars row), again]
  · rintro ⟨a, holds, within, rfl⟩
    refine ⟨HDEMProblem.rowOf arc.constraint a, ⟨holds, fun p inRow => ?_⟩, at_place a⟩
    obtain ⟨inScope, value⟩ := mem_zip_map.mp inRow
    rw [value]
    exact within p.1 inScope (HDEMProblem.mem_names_of_scope inProblem inScope)

end

/-- Domains within others that leave every name something and lose no satisfying assignment. -/
structure Narrows (problem : HDEMProblem) (domains narrowed : Domains) : Prop where
  sublist : ∀ name, (narrowed name).Sublist (domains name)
  nonempty : ∀ name ∈ problem.names, narrowed name ≠ []
  keeps : ∀ a, (∀ name ∈ problem.names, a name ∈ domains name) → problem.Satisfies a →
    ∀ name ∈ problem.names, a name ∈ narrowed name

section

variable {problem : HDEMProblem} {domains : Domains} {arc : Arc} {s s' : Pruning}

theorem Narrows.refl (nonempty : ∀ name ∈ problem.names, domains name ≠ []) :
    Narrows problem domains domains :=
  ⟨fun _ => List.Sublist.refl _, nonempty, fun _ within _ => within⟩

theorem prune_eq_none : prune arc s = .ok none ↔
    ∀ value ∈ s.domains arc.name, value ∈ supportedAt s.domains arc := by
  have idle : ((s.domains arc.name).filter fun value => value ∉ supportedAt s.domains arc) = [] ↔
      ∀ value ∈ s.domains arc.name, value ∈ supportedAt s.domains arc := by
    simp [List.filter_eq_nil_iff]
  rw [← idle]
  unfold prune
  simp only
  constructor
  · intro h
    by_contra busy
    rw [if_neg busy] at h
    split at h
    · cases h
    · cases h
  · intro none
    rw [if_pos none]

theorem prune_eq_some (pruned : prune arc s = .ok (some s')) :
    s'.domains = Function.update s.domains arc.name (leftAt s.domains arc) ∧
      leftAt s.domains arc ≠ [] ∧
      (leftAt s.domains arc).length < (s.domains arc.name).length := by
  unfold prune at pruned
  simp only at pruned
  split at pruned
  · cases pruned
  · rename_i busy
    split at pruned
    · cases pruned
    · rename_i some_left
      cases pruned
      refine ⟨rfl, some_left, ?_⟩
      obtain ⟨value, gone⟩ := List.exists_mem_of_ne_nil _ busy
      obtain ⟨member, unsupported⟩ := List.mem_filter.mp gone
      refine List.length_filter_lt_length_iff_exists.mpr ⟨value, member, ?_⟩
      simpa using unsupported

theorem leftAt_of_prune_error {pruned : Nat} (stopped : prune arc s = .error pruned) :
    leftAt s.domains arc = [] := by
  unfold prune at stopped
  simp only at stopped
  split at stopped
  · cases stopped
  · split at stopped
    · assumption
    · cases stopped

end

section

variable {problem : HDEMProblem} {domains narrowed : Domains} {arc : Arc}

variable {a : String → String}

theorem mem_leftAt_of_satisfies (member : arc ∈ problem.arcs) (satisfies : problem.Satisfies a)
    (within : ∀ name ∈ problem.names, a name ∈ narrowed name) :
    a arc.name ∈ leftAt narrowed arc := by
  refine List.mem_filter.mpr ⟨within _ (mem_names_of_arc member), decide_eq_true ?_⟩
  rw [mem_supportedAt member]
  exact supported_of_solves (fun name _ => within name) (satisfies _ (mem_arcs.mp member).1)

theorem mem_leftAt_of_consistent {S : String → Set String}
    (consistent : Consistent problem.network S)
    (within : ∀ name, S name ⊆ problem.space narrowed name) (member : arc ∈ problem.arcs)
    {value : String} (inside : value ∈ S arc.name) : value ∈ leftAt narrowed arc := by
  obtain ⟨known, place⟩ := mem_arcs.mp member
  refine List.mem_filter.mpr ⟨within _ inside (mem_names_of_arc member), decide_eq_true ?_⟩
  rw [mem_supportedAt member]
  have supported := consistent arc.constraint.condition ⟨_, known, rfl⟩ arc.name
    (List.mem_of_getElem? place) value inside
  exact supported.mono fun name _ => within name

theorem Narrows.revise (narrows : Narrows problem domains narrowed) (member : arc ∈ problem.arcs)
    (some_left : leftAt narrowed arc ≠ []) :
    Narrows problem domains (Function.update narrowed arc.name (leftAt narrowed arc)) := by
  constructor
  case sublist =>
    intro name
    by_cases here : name = arc.name
    · subst here
      rw [Function.update_self]
      exact List.filter_sublist.trans (narrows.sublist _)
    · rw [Function.update_of_ne here]
      exact narrows.sublist name
  case nonempty =>
    intro name known
    by_cases here : name = arc.name
    · subst here
      rw [Function.update_self]
      exact some_left
    · rw [Function.update_of_ne here]
      exact narrows.nonempty name known
  case keeps =>
    intro a within satisfies name known
    have within' := narrows.keeps a within satisfies
    by_cases here : name = arc.name
    · subst here
      rw [Function.update_self]
      exact mem_leftAt_of_satisfies member satisfies within'
    · rw [Function.update_of_ne here]
      exact within' name known

theorem Narrows.unsatisfied (narrows : Narrows problem domains narrowed)
    (member : arc ∈ problem.arcs) (none_left : leftAt narrowed arc = [])
    (within : ∀ name ∈ problem.names, a name ∈ domains name) : ¬ problem.Satisfies a := by
  intro satisfies
  have inside := mem_leftAt_of_satisfies member satisfies (narrows.keeps a within satisfies)
  rw [none_left] at inside
  cases inside

end

section

variable {problem : HDEMProblem} {domains : Domains} {arc : Arc} {s s' : Pruning}

theorem Narrows.prune (narrows : Narrows problem domains s.domains) (member : arc ∈ problem.arcs)
    (pruned : prune arc s = .ok (some s')) : Narrows problem domains s'.domains := by
  obtain ⟨same, some_left, -⟩ := prune_eq_some pruned
  rw [same]
  exact narrows.revise member some_left

theorem size_lt_of_prune (member : arc ∈ problem.arcs) (pruned : Hdem.prune arc s = .ok (some s')) :
    size problem s'.domains < size problem s.domains := by
  obtain ⟨same, -, fewer⟩ := prune_eq_some pruned
  rw [same]
  exact size_update_lt (mem_names_of_arc member) fewer

theorem consistent_of_idle (idle : ∀ arc ∈ problem.arcs, Hdem.prune arc s = .ok none) :
    Consistent problem.network (problem.space s.domains) := by
  rintro _ ⟨k, member, rfl⟩ name inScope value inside
  obtain ⟨arc, known, rfl, rfl⟩ := exists_arc member inScope
  have there := inside (mem_names_of_arc known)
  exact (mem_supportedAt known).mp (prune_eq_none.mp (idle arc known) value there)

variable {a : String → String}

theorem satisfies_of_consistent (consistent : Consistent problem.network (problem.space domains))
    (single : ∀ name ∈ problem.names, domains name = [a name]) : problem.Satisfies a := by
  have there {name : String} (known : name ∈ problem.names) : a name ∈ domains name := by
    rw [single name known]
    exact List.mem_singleton_self _
  refine HDEMProblem.solves_network.mp (solves_of_singletons consistent
    (fun name known => there known) ?_ ?_)
  · rintro _ ⟨k, member, rfl⟩ name inScope value inside
    have known := HDEMProblem.mem_names_of_scope member inScope
    have here := inside known
    rw [single name known] at here
    exact List.mem_singleton.mp here
  · rintro _ ⟨k, -, rfl⟩
    exact List.exists_mem_of_ne_nil _ k.named.2.1

variable {last : Pruning}

theorem of_propagate (nonempty : ∀ name ∈ problem.names, domains name ≠ [])
    (propagated : hdemPropagate problem domains = .ok last) :
    Narrows problem domains last.domains ∧
      Consistent problem.network (problem.space last.domains) := by
  have start : Narrows problem domains (Pruning.mk domains 0).domains := .refl nonempty
  constructor
  · exact saturate_keeps (P := fun s => Narrows problem domains s.domains)
      (fun arc member s s' narrows pruned => narrows.prune member pruned) start propagated
  · have lowers : ∀ arc ∈ problem.arcs, ∀ s s', Hdem.prune arc s = .ok (some s') →
        size problem s'.domains < size problem s.domains :=
      fun arc member s s' pruned => size_lt_of_prune member pruned
    have enough : size problem (Pruning.mk domains 0).domains < size problem domains + 1 :=
      Nat.lt_succ_self _
    exact consistent_of_idle
      (saturated_of_measure (fun s => size problem s.domains) lowers enough propagated)

theorem unsatisfied_of_propagate (nonempty : ∀ name ∈ problem.names, domains name ≠ [])
    {pruned : Nat} (stopped : hdemPropagate problem domains = .error pruned)
    (within : ∀ name ∈ problem.names, a name ∈ domains name) : ¬ problem.Satisfies a := by
  obtain ⟨arc, member, s, narrows, here⟩ :=
    of_saturate_error (P := fun s => Narrows problem domains s.domains)
      (fun arc member s s' narrows pruned => narrows.prune member pruned)
      (Narrows.refl nonempty) stopped
  exact narrows.unsatisfied member (leftAt_of_prune_error here) within

end

end ProofRay.Hdem
