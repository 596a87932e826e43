/- The packed solver: propagation and lazy splits under two budgets, and that it gives the worlds of
   the enumerative solver. -/

import Mathlib.Data.List.MinMax
import ProofRay.Engine.Primitives
import ProofRay.Hdem.Enumerative
import ProofRay.Hdem.Propagation

namespace ProofRay.Hdem

open Engine (Crypto PyError stdCrypto)
open Lib.ConstraintNet (Consistent)
open Lib.Guard
open Sidecar (Canonical)

/-- `tuple((name, tuple(sorted(values))) for name, values in sorted(domains.items()))`. -/
def signature (problem : HDEMProblem) (domains : Domains) : List (String × List String) :=
  problem.names.map fun name => (name, (domains name).insertionSort (· ≤ ·))

/-- `open_names`: the names with more than one value left. -/
def openNames (problem : HDEMProblem) (domains : Domains) : List String :=
  problem.names.filter fun name => 1 < (domains name).length

/-- `min(open_names, key=lambda item: (len(local[item]), item))`. -/
def splitName (problem : HDEMProblem) (domains : Domains) : Option String :=
  (openNames problem domains).argmin fun name =>
    (toLex ((domains name).length, name) : Nat ×ₗ String)

/-- `next(iter(values))` of each name. -/
def onlyValues (domains : Domains) (name : String) : String := (domains name).headD ""

/-- What the search shares between its visits. -/
structure PackedSearch where
  worlds : List HDEMWorld
  visited : List (List (String × List String))
  explored : Nat
  prunedTotal : Nat
  exhausted : Bool

/-- `worlds.add`, and what it does to the budget. -/
def PackedSearch.add (s : PackedSearch) (maxWorlds : Nat) (world : HDEMWorld) : PackedSearch :=
  let worlds := if world ∈ s.worlds then s.worlds else s.worlds ++ [world]
  { s with worlds, exhausted := s.exhausted || worlds.length > maxWorlds }

/-- `visit`. -/
def visit (problem : HDEMProblem) (maxStates maxWorlds : Nat) :
    Nat → Domains → PackedSearch → PackedSearch
  | 0, _, s => s
  | fuel + 1, domains, s =>
    if s.exhausted then s
    else if signature problem domains ∈ s.visited then s
    else if s.explored ≥ maxStates then { s with exhausted := true }
    else
      let entered := { s with
        visited := signature problem domains :: s.visited, explored := s.explored + 1 }
      match hdemPropagate problem domains with
      | .error pruned => { entered with prunedTotal := entered.prunedTotal + pruned }
      | .ok last =>
        let entered := { entered with prunedTotal := entered.prunedTotal + last.pruned }
        match splitName problem last.domains with
        | none => entered.add maxWorlds (hdemWorld problem (onlyValues last.domains))
        | some name =>
          ((last.domains name).insertionSort (· ≤ ·)).foldl (fun s value =>
            visit problem maxStates maxWorlds fuel (Function.update last.domains name [value]) s)
            entered

/-- `solve_hdem_packed`. -/
def solveHdemPacked (c : Crypto) (problem : HDEMProblem) (maxStates maxWorlds : Int) :
    Except PyError HDEMResult := do
  require (1 ≤ maxStates ∧ 1 ≤ maxWorlds)
    (PyError.valueError "H-DEM packed budgets must be positive")
  let s := visit problem maxStates.toNat maxWorlds.toNat (size problem problem.domain + 1)
    problem.domain ⟨[], [], 0, 0, false⟩
  let ordered := if ¬ s.exhausted then sortedWorlds s.worlds
    else (sortedWorlds s.worlds).take maxWorlds.toNat
  return hdemResult c problem ordered (!s.exhausted) s.explored s.prunedTotal
    (if ¬ s.exhausted then "packed GAC fixed point with complete lazy environment split"
      else "packed state/world budget exhausted")

section

variable {problem : HDEMProblem} {domains domains' : Domains} {name : String}

theorem of_signature_eq (same : signature problem domains = signature problem domains') :
    size problem domains = size problem domains' ∧
      ∀ name ∈ problem.names, ∀ value, value ∈ domains name ↔ value ∈ domains' name := by
  have sorted : ∀ name ∈ problem.names,
      (domains name).insertionSort (· ≤ ·) = (domains' name).insertionSort (· ≤ ·) :=
    fun name member => (Prod.mk.inj (List.map_inj_left.mp same name member)).2
  constructor
  · refine congrArg List.sum (List.map_congr_left fun name member => ?_)
    have length := congrArg List.length (sorted name member)
    rwa [List.length_insertionSort, List.length_insertionSort] at length
  · intro name member value
    rw [← List.mem_insertionSort (· ≤ ·), sorted name member, List.mem_insertionSort]

theorem of_splitName_eq_some (found : splitName problem domains = some name) :
    name ∈ problem.names ∧ 1 < (domains name).length := by
  obtain ⟨known, several⟩ := List.mem_filter.mp (List.argmin_mem found)
  exact ⟨known, of_decide_eq_true several⟩

theorem single_of_splitName_eq_none (found : splitName problem domains = none)
    (nonempty : ∀ name ∈ problem.names, domains name ≠ []) :
    ∀ name ∈ problem.names, domains name = [onlyValues domains name] := by
  intro name known
  have none_open : openNames problem domains = [] := List.argmin_eq_none.mp found
  have short : ¬ 1 < (domains name).length := by
    simpa using List.filter_eq_nil_iff.mp none_open name known
  unfold onlyValues
  match left : domains name with
  | [] => exact absurd left (nonempty name known)
  | [value] => rfl
  | _ :: _ :: _ =>
    rw [left] at short
    simp at short

theorem size_split_lt (known : name ∈ problem.names) (several : 1 < (domains name).length)
    (value : String) : size problem (Function.update domains name [value]) < size problem domains :=
  size_update_lt known several

theorem mem_split {a : String → String} (within : ∀ name ∈ problem.names, a name ∈ domains name)
    (name : String) : ∀ other ∈ problem.names,
      a other ∈ Function.update domains name [a name] other := by
  intro other known
  by_cases same : other = name
  · subst same
    rw [Function.update_self]
    exact List.mem_singleton_self _
  · rw [Function.update_of_ne same]
    exact within other known

end

def Covered (problem : HDEMProblem) (domains : Domains) (worlds : List HDEMWorld) : Prop :=
  ∀ a, (∀ name ∈ problem.names, a name ∈ domains name) → problem.Satisfies a →
    hdemWorld problem a ∈ worlds

/-- The worlds found are possible, and the domains visited are covered unless their visit is still
under way or the budget has run out. -/
structure Accounts (problem : HDEMProblem) (pending : List Domains) (s : PackedSearch) : Prop where
  nodup : s.worlds.Nodup
  possible : ∀ w ∈ s.worlds, problem.Possible w
  seen : s.exhausted = false → ∀ domains, signature problem domains ∈ s.visited →
    (∃ open_ ∈ pending, signature problem open_ = signature problem domains) ∨
      Covered problem domains s.worlds

def Progress (problem : HDEMProblem) (s s' : PackedSearch) (covers : List Domains) : Prop :=
  s'.exhausted = false → s.exhausted = false ∧ s.worlds ⊆ s'.worlds ∧
    ∀ domains ∈ covers, Covered problem domains s'.worlds

section

variable {problem : HDEMProblem} {domains domains' : Domains} {worlds worlds' : List HDEMWorld}
  {pending : List Domains} {s s' : PackedSearch}

theorem Covered.mono (covered : Covered problem domains worlds) (more : worlds ⊆ worlds') :
    Covered problem domains worlds' :=
  fun a within satisfies => more (covered a within satisfies)

theorem Covered.congr (covered : Covered problem domains worlds)
    (same : signature problem domains = signature problem domains') :
    Covered problem domains' worlds := by
  intro a within satisfies
  refine covered a (fun name known => ?_) satisfies
  exact ((of_signature_eq same).2 name known _).mpr (within name known)

theorem Accounts.settle (accounts : Accounts problem (domains :: pending) s)
    (covered : s.exhausted = false → Covered problem domains s.worlds) :
    Accounts problem pending s := by
  refine ⟨accounts.nodup, accounts.possible, fun lasts other visited => ?_⟩
  rcases accounts.seen lasts other visited with ⟨d, member, same⟩ | done
  · rcases List.mem_cons.mp member with rfl | later
    · exact .inr ((covered lasts).congr same)
    · exact .inl ⟨d, later, same⟩
  · exact .inr done

theorem Accounts.enter (accounts : Accounts problem pending s) (domains : Domains)
    (explored pruned : Nat) :
    Accounts problem (domains :: pending) { s with
      visited := signature problem domains :: s.visited
      explored := explored
      prunedTotal := pruned } := by
  refine ⟨accounts.nodup, accounts.possible, fun lasts other visited => ?_⟩
  rcases List.mem_cons.mp visited with same | before
  · exact .inl ⟨domains, List.mem_cons_self, same.symm⟩
  · rcases accounts.seen lasts other before with ⟨d, member, same⟩ | done
    · exact .inl ⟨d, List.mem_cons_of_mem _ member, same⟩
    · exact .inr done

theorem Accounts.add (accounts : Accounts problem pending s) (maxWorlds : Nat) {w : HDEMWorld}
    (possible : problem.Possible w) : Accounts problem pending (s.add maxWorlds w) ∧
      w ∈ (s.add maxWorlds w).worlds ∧ s.worlds ⊆ (s.add maxWorlds w).worlds := by
  have grows : s.worlds ⊆ (s.add maxWorlds w).worlds := by
    intro other member
    unfold PackedSearch.add
    simp only
    split
    · exact member
    · exact List.mem_append_left _ member
  refine ⟨⟨?_, ?_, ?_⟩, ?_, grows⟩
  · unfold PackedSearch.add
    simp only
    split
    · exact accounts.nodup
    · rename_i new
      refine List.nodup_append.mpr ⟨accounts.nodup, List.nodup_singleton _, ?_⟩
      rintro other member _ here rfl
      rw [List.mem_singleton.mp here] at member
      exact new member
  · intro other member
    unfold PackedSearch.add at member
    simp only at member
    split at member
    · exact accounts.possible other member
    · rcases List.mem_append.mp member with before | here
      · exact accounts.possible other before
      · rw [List.mem_singleton.mp here]
        exact possible
  · intro lasts other visited
    have lasted : s.exhausted = false := (Bool.or_eq_false_iff.mp lasts).1
    exact (accounts.seen lasted other visited).imp_right fun done => done.mono grows
  · unfold PackedSearch.add
    simp only
    split
    · assumption
    · exact List.mem_append_right _ (List.mem_singleton_self _)

private theorem foldl_visits {α : Type} {visitOne : PackedSearch → α → PackedSearch}
    {domainsOf : α → Domains} {l : List α}
    (each : ∀ a ∈ l, ∀ s, Accounts problem pending s → Accounts problem pending (visitOne s a) ∧
      Progress problem s (visitOne s a) [domainsOf a]) (accounts : Accounts problem pending s) :
    Accounts problem pending (l.foldl visitOne s) ∧
      Progress problem s (l.foldl visitOne s) (l.map domainsOf) := by
  induction l generalizing s with
  | nil => exact ⟨accounts, fun lasts => ⟨lasts, fun _ member => member, List.forall_mem_nil _⟩⟩
  | cons a l ih =>
    obtain ⟨next, progress⟩ := each a List.mem_cons_self s accounts
    obtain ⟨last, progress'⟩ :=
      ih (fun b member => each b (List.mem_cons_of_mem a member)) next
    refine ⟨last, fun lasts => ?_⟩
    obtain ⟨lasted, more, rest⟩ := progress' lasts
    obtain ⟨lasted', more', here⟩ := progress lasted
    refine ⟨lasted', fun w member => more (more' member), ?_⟩
    rw [List.map_cons, List.forall_mem_cons]
    exact ⟨(here _ (List.mem_singleton_self _)).mono more, rest⟩

variable {narrowed : Domains}

private theorem closed_world (narrows : Narrows problem domains narrowed)
    (consistent : Consistent problem.network (problem.space narrowed))
    (inside : ∀ name, narrowed name ⊆ problem.domain name)
    (closed : splitName problem narrowed = none) :
    problem.Possible (hdemWorld problem (onlyValues narrowed)) ∧
      ∀ worlds, hdemWorld problem (onlyValues narrowed) ∈ worlds →
        Covered problem domains worlds := by
  have single := single_of_splitName_eq_none closed narrows.nonempty
  constructor
  · refine ⟨_, fun name known => inside name ?_, satisfies_of_consistent consistent single, rfl⟩
    rw [single name known]
    exact List.mem_singleton_self _
  · intro worlds here a within satisfies
    have same : hdemWorld problem a = hdemWorld problem (onlyValues narrowed) := by
      refine hdemWorld_congr fun name known => ?_
      have value := narrows.keeps a within satisfies name known
      rw [single name known] at value
      exact List.mem_singleton.mp value
    rw [same]
    exact here

private theorem covered_of_split {narrowed : Domains} (narrows : Narrows problem domains narrowed)
    {name : String} (known : name ∈ problem.names)
    (parts : ∀ d ∈ ((narrowed name).insertionSort (· ≤ ·)).map fun value =>
      Function.update narrowed name [value], Covered problem d worlds) :
    Covered problem domains worlds := by
  intro a within satisfies
  have inNarrowed := narrows.keeps a within satisfies
  refine parts (Function.update narrowed name [a name]) (List.mem_map.mpr ⟨a name, ?_, rfl⟩) a
    (mem_split inNarrowed name) satisfies
  rw [List.mem_insertionSort]
  exact inNarrowed name known

theorem accounts_visit (maxStates maxWorlds : Nat) {fuel : Nat}
    (enough : size problem domains < fuel) (nonempty : ∀ name ∈ problem.names, domains name ≠ [])
    (inside : ∀ name, domains name ⊆ problem.domain name)
    (smaller : ∀ d ∈ pending, size problem domains < size problem d)
    (accounts : Accounts problem pending s) :
    Accounts problem pending (visit problem maxStates maxWorlds fuel domains s) ∧
      Progress problem s (visit problem maxStates maxWorlds fuel domains s) [domains] := by
  induction fuel generalizing domains pending s with
  | zero => omega
  | succ fuel ih =>
    unfold visit
    split
    · rename_i spent
      exact ⟨accounts, fun lasts => absurd spent (by simp [lasts])⟩
    · split
      · rename_i visited
        refine ⟨accounts, fun lasts => ⟨lasts, fun _ member => member, ?_⟩⟩
        rw [List.forall_mem_singleton]
        -- The domains of a visit under way are larger than these.
        rcases accounts.seen lasts domains visited with ⟨d, member, same⟩ | done
        · have less := smaller d member
          have equal := (of_signature_eq same).1
          omega
        · exact done
      · split
        · exact ⟨⟨accounts.nodup, accounts.possible, fun lasts => by cases lasts⟩,
            fun lasts => by cases lasts⟩
        · split
          · rename_i pruned stopped
            have covered : Covered problem domains s.worlds := fun a within satisfies =>
              absurd satisfies (unsatisfied_of_propagate nonempty stopped within)
            exact ⟨(accounts.enter domains _ _).settle fun _ => covered, fun lasts =>
              ⟨lasts, fun _ member => member, List.forall_mem_singleton.mpr covered⟩⟩
          · rename_i last propagated
            obtain ⟨narrows, consistent⟩ := of_propagate nonempty propagated
            have within_last : ∀ name, last.domains name ⊆ problem.domain name :=
              fun name value member => inside name ((narrows.sublist name).subset member)
            have entered := accounts.enter domains (s.explored + 1) (s.prunedTotal + last.pruned)
            split
            · rename_i closed
              obtain ⟨possible, covers⟩ := closed_world narrows consistent
                (fun name => within_last name) closed
              obtain ⟨added, here, grows⟩ := entered.add maxWorlds possible
              refine ⟨added.settle fun _ => covers _ here, fun lasts => ?_⟩
              have lasted : s.exhausted = false := (Bool.or_eq_false_iff.mp lasts).1
              exact ⟨lasted, grows, List.forall_mem_singleton.mpr (covers _ here)⟩
            · rename_i name found
              obtain ⟨known, several⟩ := of_splitName_eq_some found
              have shrinks : size problem last.domains ≤ size problem domains :=
                size_le fun name _ => (narrows.sublist name).length_le
              have each : ∀ value ∈ (last.domains name).insertionSort (· ≤ ·), ∀ s,
                  Accounts problem (domains :: pending) s →
                  Accounts problem (domains :: pending) (visit problem maxStates maxWorlds fuel
                    (Function.update last.domains name [value]) s) ∧
                  Progress problem s (visit problem maxStates maxWorlds fuel
                    (Function.update last.domains name [value]) s)
                    [Function.update last.domains name [value]] := by
                intro value member s accounts
                rw [List.mem_insertionSort] at member
                have fewer := size_split_lt known several value
                refine ih (by omega) ?_ ?_ ?_ accounts
                · intro other known'
                  by_cases same : other = name
                  · subst same
                    simp
                  · rw [Function.update_of_ne same]
                    exact narrows.nonempty other known'
                · intro other
                  by_cases same : other = name
                  · subst same
                    rw [Function.update_self]
                    exact List.cons_subset.mpr ⟨within_last _ member, List.nil_subset _⟩
                  · rw [Function.update_of_ne same]
                    exact within_last other
                · refine List.forall_mem_cons.mpr ⟨by omega, fun d member => ?_⟩
                  have less := smaller d member
                  omega
              obtain ⟨visited, progress⟩ := foldl_visits each entered
              have whole := fun lasts => covered_of_split narrows known (progress lasts).2.2
              refine ⟨visited.settle whole, fun lasts => ?_⟩
              obtain ⟨lasted, more, -⟩ := progress lasts
              exact ⟨lasted, more, List.forall_mem_singleton.mpr (whole lasts)⟩

end

section

variable {c : Crypto} {problem : HDEMProblem} {maxStates maxWorlds : Int}

theorem packed_worlds {r : HDEMResult}
    (solved : solveHdemPacked c problem maxStates maxWorlds = .ok r)
    (complete : r.complete = true) :
    (∃ explored pruned reason, r = hdemResult c problem r.worlds true explored pruned reason) ∧
      (r.worlds.Pairwise fun a b => a.key < b.key) ∧ ∀ w, w ∈ r.worlds ↔ problem.Possible w := by
  unfold solveHdemPacked at solved
  simp only [bind_eq_ok, pure_eq_ok] at solved
  obtain ⟨_, -, rfl⟩ := solved
  have start : Accounts problem [] (PackedSearch.mk [] [] 0 0 false) :=
    ⟨List.nodup_nil, List.forall_mem_nil _, fun _ _ visited => by cases visited⟩
  obtain ⟨accounts, progress⟩ := accounts_visit maxStates.toNat maxWorlds.toNat
    (Nat.lt_succ_self (size problem problem.domain))
    (fun name known => problem.domain_ne_nil known) (fun name => List.Subset.refl _)
    (List.forall_mem_nil _) start
  generalize visit problem maxStates.toNat maxWorlds.toNat _ _ _ = s at complete accounts progress ⊢
  have lasts : s.exhausted = false := by
    simpa [hdemResult] using complete
  simp only [lasts, Bool.false_eq_true, not_false_eq_true, if_true]
  refine ⟨⟨_, _, _, rfl⟩, pairwise_sortedWorlds accounts.nodup, fun w => ?_⟩
  show w ∈ sortedWorlds s.worlds ↔ _
  rw [mem_sortedWorlds]
  constructor
  · exact accounts.possible w
  · rintro ⟨a, assigns, satisfies, rfl⟩
    exact (progress lasts).2.2 problem.domain (List.mem_singleton_self _) a assigns satisfies

private theorem same_of_worlds {r r' : HDEMResult} (same : r.worlds = r'.worlds)
    (left : ∃ explored pruned reason, r = hdemResult c problem r.worlds true explored pruned reason)
    (right : ∃ explored pruned reason,
      r' = hdemResult c problem r'.worlds true explored pruned reason) :
    r.state = r'.state ∧ r.answer = r'.answer ∧ r.proofs = r'.proofs ∧ r.worlds = r'.worlds := by
  obtain ⟨explored, pruned, reason, left⟩ := left
  obtain ⟨explored', pruned', reason', right⟩ := right
  rw [left, right, same]
  exact ⟨rfl, rfl, rfl, rfl⟩

/-- Under budgets that neither runs out of, the packed solver and the enumerative one give the same
state, answer, proofs and worlds; a packed result that is complete has found exactly the worlds of
the assignments that satisfy every constraint. -/
theorem packed_eq_enumerative (c : Crypto) (problem : HDEMProblem)
    (maxStates maxWorlds maxAssignments : Int) (states : 1 ≤ maxStates) (worlds : 1 ≤ maxWorlds)
    (assignments : 1 ≤ maxAssignments) :
    ∃ packed enumerated, solveHdemPacked c problem maxStates maxWorlds = .ok packed ∧
      solveHdemEnumerative c problem maxAssignments = .ok enumerated ∧
      (packed.complete = true → enumerated.complete = true →
        packed.state = enumerated.state ∧ packed.answer = enumerated.answer ∧
          packed.proofs = enumerated.proofs ∧ packed.worlds = enumerated.worlds) ∧
      (packed.complete = true → ∀ w, w ∈ packed.worlds ↔ problem.Possible w) := by
  have packed_ok : ∃ packed, solveHdemPacked c problem maxStates maxWorlds = .ok packed := by
    unfold solveHdemPacked
    rw [require_of ⟨states, worlds⟩]
    exact ⟨_, rfl⟩
  have enumerated_ok : ∃ enumerated,
      solveHdemEnumerative c problem maxAssignments = .ok enumerated := by
    unfold solveHdemEnumerative
    rw [require_of assignments, ok_bind]
    simp only
    split
    · exact ⟨_, rfl⟩
    · exact ⟨_, rfl⟩
  obtain ⟨packed, solved⟩ := packed_ok
  obtain ⟨enumerated, solved'⟩ := enumerated_ok
  refine ⟨packed, enumerated, solved, solved', fun complete complete' => ?_, fun complete => ?_⟩
  · obtain ⟨result, ordered, exact⟩ := packed_worlds solved complete
    obtain ⟨result', ordered', exact'⟩ := enumerative_worlds solved' complete'
    have same := Lib.eq_of_pairwise_lt ordered ordered' fun w =>
      (exact w).trans (exact' w).symm
    exact same_of_worlds same result result'
  · exact (packed_worlds solved complete).2.2

end

/-- A variable that is `0` or `1`. -/
def bit (name : String) (named : name ≠ "") : HDEMVariable where
  name
  domain := [⟨"0", [], by decide⟩, ⟨"1", [], by decide⟩]
  checked := ⟨named, by simp, by show Canonical ["0", "1"]; decide⟩

theorem x_named : "x" ≠ "" := by decide

theorem y_named : "y" ≠ "" := by decide

theorem unwitnessed : Canonical ([] : List Int) ∧ ∀ id ∈ ([] : List Int), 0 ≤ id := by decide

def differ : HDEMConstraint where
  constraintId := "differ"
  vars := ["x", "y"]
  allowed := [["0", "1"], ["1", "0"]]
  witnessFactIds := []
  named := by decide
  relation := by decide
  witnesses := unwitnessed

def twoBits : HDEMProblem where
  vars := [bit "x" x_named, bit "y" y_named]
  constraints := [differ]
  answerVariables := ["x"]
  named := ⟨by simp, by show Canonical ["x", "y"]; decide⟩
  identified := by show Canonical ["differ"]; decide
  answers := by decide
  known := by decide
  inside := by decide

theorem packed_eq_enumerative_twoBits : ∃ packed enumerated,
    solveHdemPacked stdCrypto twoBits 10 10 = .ok packed ∧
      solveHdemEnumerative stdCrypto twoBits 10 = .ok enumerated ∧
      packed.worlds = enumerated.worlds ∧ ∀ w, w ∈ packed.worlds ↔ twoBits.Possible w := by
  obtain ⟨packed, enumerated, solved, solved', same, exact⟩ :=
    packed_eq_enumerative stdCrypto twoBits 10 10 10 (by decide) (by decide) (by decide)
  have complete : packed.complete = true := by
    cases solved
    rfl
  have complete' : enumerated.complete = true := by
    cases solved'
    rfl
  exact ⟨packed, enumerated, solved, solved', (same complete complete').2.2.2, exact complete⟩

end ProofRay.Hdem
