/- The search for one world of a finite problem that takes some readings and leaves out others. -/

import ProofRay.Hdem.Packed
import ProofRay.Lib.Backtrack

namespace ProofRay.Attention

open Hdem
open Lib.Backtrack
open Lib.ConstraintNet
open Lib.Saturation
open Function (update_of_ne update_self)

abbrev Guard := List (String × String)

def Guard.Holds (guard : Guard) (a : String → String) : Prop := ∀ p ∈ guard, a p.1 = p.2

instance (guard : Guard) (a : String → String) : Decidable (guard.Holds a) :=
  inferInstanceAs (Decidable (∀ p ∈ guard, _))

def Guard.Known (guard : Guard) (problem : HDEMProblem) : Prop :=
  ∀ p ∈ guard, p.1 ∈ problem.names ∧ p.2 ∈ problem.domain p.1

instance (guard : Guard) (problem : HDEMProblem) : Decidable (guard.Known problem) :=
  inferInstanceAs (Decidable (∀ p ∈ guard, _))

/-- One forbidden guard: with a single name still open, its value goes; with none it has come to
hold. -/
def forbid (guard : Guard) (s : Pruning) : Except Nat (Option Pruning) :=
  if ∃ p ∈ guard, p.2 ∉ s.domains p.1 then .ok none
  else
    match guard.filter fun p => 1 < (s.domains p.1).length with
    | [] => .error s.pruned
    | [p] =>
      let left := (s.domains p.1).filter fun value => value ≠ p.2
      let pruned := s.pruned + 1
      if left = [] then .error pruned
      else .ok (some ⟨Function.update s.domains p.1 left, pruned⟩)
    | _ => .ok none

/-- What a pass goes through. -/
inductive Rule where
  | arc (place : Arc)
  | guard (readings : Guard)

def Rule.apply : Rule → Pruning → Except Nat (Option Pruning)
  | arc k => prune k
  | guard readings => forbid readings

def rules (problem : HDEMProblem) (forbidden : List Guard) : List Rule :=
  problem.arcs.map .arc ++ forbidden.map .guard

/-- `propagate`, with the count of what is pruned. -/
def propagate (problem : HDEMProblem) (forbidden : List Guard) (s : Pruning) : Except Nat Pruning :=
  saturate Rule.apply (rules problem forbidden) (size problem s.domains + 1) s

def reading (problem : HDEMProblem) (a : String → String) : Guard :=
  problem.names.map fun name => (name, a name)

/-- The body of `visit`. -/
def visitWorld (problem : HDEMProblem) (forbidden : List Guard) (domains : Domains)
    (pruned : Nat) : Outcome Domains Guard × Nat :=
  match propagate problem forbidden ⟨domains, pruned⟩ with
  | .error pruned => (.dead, pruned)
  | .ok last =>
    match splitName problem last.domains with
    | none => (.answer (reading problem (onlyValues last.domains)), last.pruned)
    | some name =>
      (.split (((last.domains name).insertionSort (· ≤ ·)).map fun value =>
        Function.update last.domains name [value]), last.pruned)

def restrict : Guard → Domains → Option Domains
  | [], domains => some domains
  | (name, value) :: rest, domains =>
    if value ∈ domains name then restrict rest (Function.update domains name [value]) else none

/-- What a search for a world comes to. -/
structure Finding where
  witness : Option Guard
  complete : Bool
  explored : Nat
  pruned : Nat

/-- `_hplt_find_world`. -/
def hpltFindWorld (problem : HDEMProblem) (required : Guard) (forbidden : List Guard)
    (maxStates : Int) : Finding :=
  match restrict required problem.domain with
  | none => ⟨none, true, 0, 0⟩
  | some domains =>
    let r := search (visitWorld problem forbidden) maxStates (size problem domains + 1) domains
      ⟨0, 0, false⟩
    ⟨r.1, !r.2.exhausted, r.2.explored, r.2.counted⟩

def Free (problem : HDEMProblem) (forbidden : List Guard) (a : String → String) : Prop :=
  problem.Satisfies a ∧ ∀ guard ∈ forbidden, ¬guard.Holds a

/-- Domains within others that lose no free assignment. -/
structure Cuts (problem : HDEMProblem) (forbidden : List Guard) (domains narrowed : Domains) :
    Prop where
  sublist : ∀ name, (narrowed name).Sublist (domains name)
  nonempty : ∀ name ∈ problem.names, narrowed name ≠ []
  keeps : ∀ a, (∀ name ∈ problem.names, a name ∈ domains name) → Free problem forbidden a →
    ∀ name ∈ problem.names, a name ∈ narrowed name

section

variable {problem : HDEMProblem} {forbidden : List Guard} {domains narrowed : Domains}
  {guard : Guard} {s s' : Pruning}

theorem Cuts.trans {last : Domains} (first : Cuts problem forbidden domains narrowed)
    (second : Cuts problem forbidden narrowed last) : Cuts problem forbidden domains last where
  sublist name := (second.sublist name).trans (first.sublist name)
  nonempty := second.nonempty
  keeps a within free := second.keeps a (first.keeps a within free) free

variable {a : String → String} {pruned : Nat}

private theorem holds_of_single (known : guard.Known problem)
    (within : ∀ name ∈ problem.names, a name ∈ domains name)
    (there : ∀ p ∈ guard, p.2 ∈ domains p.1)
    (open_ : ∀ p ∈ guard, 1 < (domains p.1).length → a p.1 = p.2) : guard.Holds a := by
  intro p member
  by_cases several : 1 < (domains p.1).length
  · exact open_ p member several
  · obtain ⟨value, single⟩ : ∃ value, domains p.1 = [value] := by
      refine List.length_eq_one_iff.mp ?_
      have positive := List.length_pos_of_mem (there p member)
      omega
    have here := there p member
    have inside := within p.1 (known p member).1
    rw [single, List.mem_singleton] at here inside
    rw [inside, here]

theorem of_forbid (forbade : forbid guard s = .ok (some s')) :
    (∀ p ∈ guard, p.2 ∈ s.domains p.1) ∧ ∃ p ∈ guard, 1 < (s.domains p.1).length ∧
      (∀ q ∈ guard, 1 < (s.domains q.1).length → q = p) ∧
      ((s.domains p.1).filter fun value => value ≠ p.2) ≠ [] ∧
      s'.domains = Function.update s.domains p.1
        ((s.domains p.1).filter fun value => value ≠ p.2) := by
  unfold forbid at forbade
  split at forbade
  · cases forbade
  · rename_i absent
    have there : ∀ p ∈ guard, p.2 ∈ s.domains p.1 := by
      intro p inGuard
      by_contra outside
      exact absent ⟨p, inGuard, outside⟩
    split at forbade
    · cases forbade
    · rename_i p only
      simp only at forbade
      split at forbade
      · cases forbade
      · rename_i some_left
        cases forbade
        have open_ : ∀ q, q ∈ guard ∧ 1 < (s.domains q.1).length ↔ q = p := by
          intro q
          have here : q ∈ (guard.filter fun p => 1 < (s.domains p.1).length) ↔ q = p := by
            rw [only, List.mem_singleton]
          rw [← here, List.mem_filter, decide_eq_true_eq]
        obtain ⟨inGuard, several⟩ := (open_ p).mpr rfl
        exact ⟨there, p, inGuard, several, fun q inside many => (open_ q).mp ⟨inside, many⟩,
          some_left, rfl⟩
    · cases forbade

theorem size_lt_of_forbid (known : guard.Known problem) (forbade : forbid guard s = .ok (some s')) :
    size problem s'.domains < size problem s.domains := by
  obtain ⟨there, p, inGuard, -, -, -, same⟩ := of_forbid forbade
  rw [same]
  refine size_update_lt (known p inGuard).1 ?_
  exact List.length_filter_lt_length_iff_exists.mpr ⟨p.2, there p inGuard, by simp⟩

theorem cuts_of_forbid (known : guard.Known problem) (member : guard ∈ forbidden)
    (nonempty : ∀ name ∈ problem.names, s.domains name ≠ [])
    (forbade : forbid guard s = .ok (some s')) : Cuts problem forbidden s.domains s'.domains := by
  obtain ⟨there, p, inGuard, -, single, some_left, same⟩ := of_forbid forbade
  rw [same]
  constructor
  case sublist =>
    intro name
    by_cases here : name = p.1
    · subst here
      rw [update_self]
      exact List.filter_sublist
    · rw [update_of_ne here]
  case nonempty =>
    intro name inNames
    by_cases here : name = p.1
    · subst here
      rw [update_self]
      exact some_left
    · rw [update_of_ne here]
      exact nonempty name inNames
  case keeps =>
    intro a within free name inNames
    by_cases here : name = p.1
    · subst here
      rw [update_self]
      refine List.mem_filter.mpr ⟨within _ inNames, decide_eq_true fun value => ?_⟩
      refine free.2 guard member (holds_of_single known within there fun q inside several => ?_)
      rw [single q inside several]
      exact value
    · rw [update_of_ne here]
      exact within name inNames

theorem unfree_of_forbid (known : guard.Known problem) (member : guard ∈ forbidden)
    (stopped : forbid guard s = .error pruned)
    (within : ∀ name ∈ problem.names, a name ∈ s.domains name) : ¬Free problem forbidden a := by
  intro free
  unfold forbid at stopped
  split at stopped
  · cases stopped
  · rename_i absent
    have there : ∀ p ∈ guard, p.2 ∈ s.domains p.1 := by
      intro p inGuard
      by_contra outside
      exact absent ⟨p, inGuard, outside⟩
    split at stopped
    · rename_i none_open
      refine free.2 guard member (holds_of_single known within there fun p inGuard several => ?_)
      have here := List.filter_eq_nil_iff.mp none_open p inGuard
      exact absurd (decide_eq_true several) here
    · rename_i p only
      simp only at stopped
      split at stopped
      · rename_i none_left
        -- the value is the only one of its domain, which is then not open
        refine free.2 guard member (holds_of_single known within there fun q inGuard several => ?_)
        have here : q ∈ guard.filter fun p => 1 < (s.domains p.1).length :=
          List.mem_filter.mpr ⟨inGuard, decide_eq_true several⟩
        rw [only] at here
        rw [List.mem_singleton.mp here]
        by_contra differs
        have q_is := List.mem_singleton.mp here
        have inside := within p.1 (q_is ▸ (known q inGuard).1)
        exact List.filter_eq_nil_iff.mp none_left _ inside (decide_eq_true differs)
      · cases stopped
    · cases stopped

theorem not_holds_of_idle (known : guard.Known problem) (idle : forbid guard s = .ok none)
    (single : ∀ name ∈ problem.names, s.domains name = [a name]) : ¬guard.Holds a := by
  intro holds
  have there : ¬∃ p ∈ guard, p.2 ∉ s.domains p.1 := by
    rintro ⟨p, inGuard, outside⟩
    rw [single p.1 (known p inGuard).1, holds p inGuard] at outside
    exact outside (List.mem_singleton_self _)
  have closed : (guard.filter fun p => 1 < (s.domains p.1).length) = [] := by
    refine List.filter_eq_nil_iff.mpr fun p inGuard => ?_
    rw [single p.1 (known p inGuard).1]
    simp
  unfold forbid at idle
  rw [if_neg there, closed] at idle
  cases idle

variable {r : Rule}

theorem cuts_of_apply (known : ∀ guard ∈ forbidden, guard.Known problem)
    (member : r ∈ rules problem forbidden) (nonempty : ∀ name ∈ problem.names, s.domains name ≠ [])
    (applied : r.apply s = .ok (some s')) : Cuts problem forbidden s.domains s'.domains := by
  rcases List.mem_append.mp member with isArc | isGuard
  · obtain ⟨arc, inArcs, rfl⟩ := List.mem_map.mp isArc
    have narrows := (Narrows.refl nonempty).prune inArcs applied
    exact ⟨narrows.sublist, narrows.nonempty, fun a within free => narrows.keeps a within free.1⟩
  · obtain ⟨guard, inForbidden, rfl⟩ := List.mem_map.mp isGuard
    exact cuts_of_forbid (known guard inForbidden) inForbidden nonempty applied

theorem size_lt_of_apply (known : ∀ guard ∈ forbidden, guard.Known problem)
    (member : r ∈ rules problem forbidden) (applied : r.apply s = .ok (some s')) :
    size problem s'.domains < size problem s.domains := by
  rcases List.mem_append.mp member with isArc | isGuard
  · obtain ⟨arc, inArcs, rfl⟩ := List.mem_map.mp isArc
    exact size_lt_of_prune inArcs applied
  · obtain ⟨guard, inForbidden, rfl⟩ := List.mem_map.mp isGuard
    exact size_lt_of_forbid (known guard inForbidden) applied

theorem unfree_of_apply (known : ∀ guard ∈ forbidden, guard.Known problem)
    (member : r ∈ rules problem forbidden) (nonempty : ∀ name ∈ problem.names, s.domains name ≠ [])
    (stopped : r.apply s = .error pruned) (within : ∀ name ∈ problem.names, a name ∈ s.domains name)
    : ¬Free problem forbidden a := by
  rcases List.mem_append.mp member with isArc | isGuard
  · obtain ⟨arc, inArcs, rfl⟩ := List.mem_map.mp isArc
    intro free
    exact (Narrows.refl nonempty).unsatisfied inArcs (leftAt_of_prune_error stopped) within free.1
  · obtain ⟨guard, inForbidden, rfl⟩ := List.mem_map.mp isGuard
    exact unfree_of_forbid (known guard inForbidden) inForbidden stopped within

theorem Cuts.refl (nonempty : ∀ name ∈ problem.names, domains name ≠ []) :
    Cuts problem forbidden domains domains :=
  ⟨fun _ => List.Sublist.refl _, nonempty, fun _ within _ => within⟩

theorem unfree_of_propagate (known : ∀ guard ∈ forbidden, guard.Known problem)
    (nonempty : ∀ name ∈ problem.names, s.domains name ≠ [])
    (stopped : propagate problem forbidden s = .error pruned)
    (within : ∀ name ∈ problem.names, a name ∈ s.domains name) : ¬Free problem forbidden a := by
  obtain ⟨r, member, last, cuts, here⟩ :=
    of_saturate_error (P := fun s' => Cuts problem forbidden s.domains s'.domains)
      (fun r member s s' cuts applied =>
        cuts.trans (cuts_of_apply known member cuts.nonempty applied))
      (Cuts.refl nonempty) stopped
  intro free
  exact unfree_of_apply known member cuts.nonempty here (cuts.keeps a within free) free

theorem of_propagate_forbidden (known : ∀ guard ∈ forbidden, guard.Known problem)
    (nonempty : ∀ name ∈ problem.names, s.domains name ≠ [])
    (propagated : propagate problem forbidden s = .ok s') :
    Cuts problem forbidden s.domains s'.domains ∧
      ∀ r ∈ rules problem forbidden, r.apply s' = .ok none := by
  constructor
  · exact saturate_keeps (P := fun s' => Cuts problem forbidden s.domains s'.domains)
      (fun r member s s' cuts applied =>
        cuts.trans (cuts_of_apply known member cuts.nonempty applied))
      (Cuts.refl nonempty) propagated
  · exact saturated_of_measure (fun s : Pruning => size problem s.domains)
      (fun r member s s' (applied : r.apply s = .ok (some s')) =>
        size_lt_of_apply known member applied)
      (Nat.lt_succ_self (size problem s.domains)) propagated

def worlds (problem : HDEMProblem) (forbidden : List Guard) (domains : Domains) : Set Guard :=
  {w | ∃ a, (∀ name ∈ problem.names, a name ∈ domains name) ∧ Free problem forbidden a ∧
    reading problem a = w}

theorem sound_visitWorld (known : ∀ guard ∈ forbidden, guard.Known problem) :
    Sound (visitWorld problem forbidden)
      (fun domains => ∀ name ∈ problem.names, domains name ≠ []) (worlds problem forbidden)
      (size problem) := by
  constructor
  case dead =>
    intro domains pruned nonempty dead
    unfold visitWorld at dead
    split at dead
    · rename_i stopped
      refine Set.eq_empty_iff_forall_notMem.mpr ?_
      rintro _ ⟨a, within, free, rfl⟩
      exact unfree_of_propagate known nonempty stopped within free
    · split at dead
      · cases dead
      · cases dead
  case answer =>
    intro domains pruned w nonempty answered
    unfold visitWorld at answered
    split at answered
    · cases answered
    · rename_i last propagated
      split at answered
      · rename_i closed
        cases answered
        obtain ⟨cuts, idle⟩ := of_propagate_forbidden known nonempty propagated
        have single := single_of_splitName_eq_none closed cuts.nonempty
        have arcs : ∀ arc ∈ problem.arcs, prune arc last = .ok none := fun arc inArcs =>
          idle (.arc arc) (List.mem_append_left _ (List.mem_map_of_mem inArcs))
        refine ⟨onlyValues last.domains, fun name inNames => (cuts.sublist name).subset ?_,
          ⟨satisfies_of_consistent (consistent_of_idle arcs) single, fun guard inForbidden => ?_⟩,
          rfl⟩
        · rw [single name inNames]
          exact List.mem_singleton_self _
        · have rest := idle (.guard guard)
            (List.mem_append_right _ (List.mem_map_of_mem inForbidden))
          exact not_holds_of_idle (known guard inForbidden) rest single
      · cases answered
  case smaller =>
    intro domains pruned children nonempty split_up d member
    unfold visitWorld at split_up
    split at split_up
    · cases split_up
    · rename_i last propagated
      split at split_up
      · cases split_up
      · rename_i name found
        cases split_up
        obtain ⟨cuts, -⟩ := of_propagate_forbidden known nonempty propagated
        obtain ⟨value, -, rfl⟩ := List.mem_map.mp member
        obtain ⟨inNames, several⟩ := of_splitName_eq_some found
        refine ⟨fun other inNames => ?_, ?_⟩
        · by_cases same : other = name
          · subst same
            simp
          · rw [update_of_ne same]
            exact cuts.nonempty other inNames
        · exact (size_split_lt inNames several value).trans_le
            (size_le fun name _ => (cuts.sublist name).length_le)
  case covers =>
    intro domains pruned children nonempty split_up w
    unfold visitWorld at split_up
    split at split_up
    · cases split_up
    · rename_i last propagated
      split at split_up
      · cases split_up
      · rename_i name found
        cases split_up
        obtain ⟨cuts, -⟩ := of_propagate_forbidden known nonempty propagated
        obtain ⟨inNames, -⟩ := of_splitName_eq_some found
        constructor
        · rintro ⟨a, within, free, rfl⟩
          have inside := cuts.keeps a within free
          refine ⟨_, List.mem_map_of_mem ((List.mem_insertionSort _).mpr (inside name inNames)),
            a, mem_split inside name, free, rfl⟩
        · rintro ⟨d, member, a, within, free, rfl⟩
          obtain ⟨value, inDomain, rfl⟩ := List.mem_map.mp member
          rw [List.mem_insertionSort] at inDomain
          refine ⟨a, fun other inNames => (cuts.sublist other).subset ?_, free, rfl⟩
          have here := within other inNames
          by_cases same : other = name
          · subst same
            rw [update_self, List.mem_singleton] at here
            rw [here]
            exact inDomain
          · rw [update_of_ne same] at here
            exact here

variable {name value : String} {required : Guard} {left : Domains}

private theorem within_update_iff (inNames : name ∈ problem.names) (inside : value ∈ domains name)
    (a : String → String) :
    (∀ other ∈ problem.names, a other ∈ Function.update domains name [value] other) ↔
      (∀ other ∈ problem.names, a other ∈ domains other) ∧ a name = value := by
  constructor
  · intro within
    have here := within name inNames
    rw [update_self, List.mem_singleton] at here
    refine ⟨fun other inNames => ?_, here⟩
    by_cases same : other = name
    · subst same
      rw [here]
      exact inside
    · have there := within other inNames
      rw [update_of_ne same] at there
      exact there
  · rintro ⟨within, rfl⟩
    exact mem_split within name

theorem of_restrict_none (required : Guard) (known : required.Known problem)
    (none_left : restrict required domains = none)
    (within : ∀ name ∈ problem.names, a name ∈ domains name) : ¬required.Holds a := by
  induction required generalizing domains with
  | nil => cases none_left
  | cons p required ih =>
    obtain ⟨name, value⟩ := p
    obtain ⟨⟨inNames, -⟩, later⟩ := List.forall_mem_cons.mp known
    intro holds
    obtain ⟨first, holds⟩ := List.forall_mem_cons.mp holds
    have inside : value ∈ domains name := by
      have same : value = a name := first.symm
      rw [same]
      exact within name inNames
    rw [restrict, if_pos inside] at none_left
    exact ih later none_left ((within_update_iff inNames inside a).mpr ⟨within, first⟩) holds

theorem of_restrict_some (required : Guard) (known : required.Known problem)
    (nonempty : ∀ name ∈ problem.names, domains name ≠ [])
    (restricted : restrict required domains = some left) :
    (∀ name ∈ problem.names, left name ≠ []) ∧
      ∀ a : String → String, (∀ name ∈ problem.names, a name ∈ left name) ↔
        (∀ name ∈ problem.names, a name ∈ domains name) ∧ required.Holds a := by
  induction required generalizing domains with
  | nil =>
    cases restricted
    exact ⟨nonempty, fun a => (and_iff_left (List.forall_mem_nil _)).symm⟩
  | cons p required ih =>
    obtain ⟨name, value⟩ := p
    obtain ⟨⟨inNames, -⟩, later⟩ := List.forall_mem_cons.mp known
    unfold restrict at restricted
    split at restricted
    · rename_i inside
      have some_left : ∀ other ∈ problem.names,
          Function.update domains name [value] other ≠ [] := by
        intro other inNames
        by_cases same : other = name
        · subst same
          simp
        · rw [update_of_ne same]
          exact nonempty other inNames
      obtain ⟨nonempty', all⟩ := ih later some_left restricted
      refine ⟨nonempty', fun a => ?_⟩
      have holds : Guard.Holds ((name, value) :: required) a ↔
          a name = value ∧ Guard.Holds required a :=
        List.forall_mem_cons
      rw [all, within_update_iff inNames inside, holds, and_assoc]
    · cases restricted

theorem hpltFindWorld_finds {maxStates : Int} {w : Guard}
    (known : ∀ guard ∈ forbidden, guard.Known problem) (known' : required.Known problem)
    (found : (hpltFindWorld problem required forbidden maxStates).witness = some w) :
    ∃ a, problem.Assigns a ∧ required.Holds a ∧ Free problem forbidden a ∧
      reading problem a = w := by
  unfold hpltFindWorld at found
  split at found
  · cases found
  · rename_i domains restricted
    obtain ⟨nonempty, all⟩ :=
      of_restrict_some required known' (fun name => problem.domain_ne_nil) restricted
    obtain ⟨finds, -⟩ := settles_search (sound_visitWorld known)
      (Nat.lt_succ_self (size problem domains)) nonempty ⟨0, 0, false⟩
    obtain ⟨a, within, free, same⟩ := finds w found
    obtain ⟨assigns, holds⟩ := (all a).mp within
    exact ⟨a, assigns, holds, free, same⟩

theorem hpltFindWorld_spec (problem : HDEMProblem) (required : Guard) (forbidden : List Guard)
    (maxStates : Int) (known : ∀ guard ∈ forbidden, guard.Known problem)
    (known' : required.Known problem) :
    (∀ w, (hpltFindWorld problem required forbidden maxStates).witness = some w →
      ∃ a, problem.Assigns a ∧ required.Holds a ∧ Free problem forbidden a) ∧
    ((hpltFindWorld problem required forbidden maxStates).witness = none →
      (hpltFindWorld problem required forbidden maxStates).complete = true →
      ∀ a, problem.Assigns a → required.Holds a → ¬Free problem forbidden a) := by
  constructor
  · intro w found
    obtain ⟨a, assigns, holds, free, -⟩ := hpltFindWorld_finds known known' found
    exact ⟨a, assigns, holds, free⟩
  unfold hpltFindWorld
  split
  · rename_i none_left
    exact fun _ _ a assigns holds _ => of_restrict_none required known' none_left assigns holds
  · rename_i domains restricted
    obtain ⟨nonempty, all⟩ :=
      of_restrict_some required known' (fun name => problem.domain_ne_nil) restricted
    obtain ⟨-, fails⟩ := settles_search (sound_visitWorld known)
      (Nat.lt_succ_self (size problem domains)) nonempty ⟨0, 0, false⟩
    · intro witness complete a assigns holds free
      have none := fails witness (by simpa using complete)
      have there : reading problem a ∈ worlds problem forbidden domains :=
        ⟨a, (all a).mpr ⟨assigns, holds⟩, free, rfl⟩
      rw [none] at there
      exact there

def World (problem : HDEMProblem) (required : Guard) (forbidden : List Guard) (w : Guard) : Prop :=
  ∃ a, problem.Assigns a ∧ problem.Satisfies a ∧ reading problem a = w ∧
    (∀ p ∈ required, p ∈ w) ∧ ∀ guard ∈ forbidden, ¬∀ p ∈ guard, p ∈ w

theorem mem_reading {a : String → String} {p : String × String} :
    p ∈ reading problem a ↔ p.1 ∈ problem.names ∧ a p.1 = p.2 := by
  rw [reading, List.mem_map]
  constructor
  · rintro ⟨name, inNames, rfl⟩
    exact ⟨inNames, rfl⟩
  · rintro ⟨inNames, value⟩
    exact ⟨p.1, inNames, Prod.ext rfl value⟩

theorem holds_iff_of_known {a : String → String} (known : guard.Known problem) :
    guard.Holds a ↔ ∀ p ∈ guard, p ∈ reading problem a :=
  forall₂_congr fun p member => by rw [mem_reading, and_iff_right (known p member).1]

theorem known_of_restrict
    (inside : ∀ name, ∀ value ∈ domains name, name ∈ problem.names ∧ value ∈ problem.domain name)
    (restricted : restrict required domains = some left) : required.Known problem := by
  induction required generalizing domains with
  | nil => exact nofun
  | cons p required ih =>
    obtain ⟨name, value⟩ := p
    unfold restrict at restricted
    split at restricted
    · rename_i here
      refine List.forall_mem_cons.mpr ⟨inside name value here, ih ?_ restricted⟩
      intro other v member
      by_cases same : other = name
      · subst same
        rw [update_self, List.mem_singleton] at member
        exact member ▸ inside other value here
      · rw [update_of_ne same] at member
        exact inside other v member
    · cases restricted

theorem mem_names_of_mem_domain (inside : value ∈ problem.domain name) : name ∈ problem.names := by
  rw [HDEMProblem.domain, domainOf] at inside
  cases found : problem.vars.find? fun v => v.name = name with
  | none =>
    rw [found] at inside
    cases inside
  | some v =>
    have same : v.name = name := by simpa using List.find?_some found
    exact same ▸ List.mem_map_of_mem (List.mem_of_find?_eq_some found)

end

end ProofRay.Attention
