/- A finite problem whose worlds make guarded facts visible, queried world by world or once over all
   facts. -/

import ProofRay.Attention.ProofAttention
import ProofRay.Attention.Worlds

namespace ProofRay.Attention

open Engine (Crypto PyError)
open Hdem
open Lib (Dict collected sortedSet)
open Lib.Guard

/-- `HPLTGuardedFact`. -/
structure HPLTGuardedFact where
  fact : AuthorizedFact
  guard : Guard
  checked : (guard.map toLex).Pairwise (· < ·) ∧ ∀ p ∈ guard, p.1 ≠ "" ∧ p.2 ≠ ""

/-- `HPLTResult`. -/
structure HPLTResult where
  state : ProofState
  outputs : List SigmaPBAOutput
  complete : Bool
  worldCount : Nat
  latticeExploredStates : Nat
  latticePrunedValues : Nat
  candidateChecks : Nat
  evidenceBytes : Nat
  problemSha256 : String
  reason : String
  deriving DecidableEq, Repr

inductive LatticeMode where
  | enumerative
  | packed
  | symbolic
  deriving DecidableEq, Repr

/-- The arguments of a query, but for the mode. -/
structure HPLTQuery where
  problem : HDEMProblem
  guardedFacts : List HPLTGuardedFact
  sources : List SealedSource
  scope : String
  allowedRules : List String
  program : ConjunctiveProgram
  nogoods : List (List String)
  maxLatticeStates : Int
  maxLatticeWorlds : Int
  maxCandidateChecks : Int
  maxEvidenceBytes : Int
  maxEnvironments : Int

/-- A result, and whether a budget ran out on the way to it. -/
structure HPLTRun where
  result : HPLTResult
  exhausted : Bool

def mergeReadings : Guard → Dict String String → Option (Dict String String)
  | [], merged => some merged
  | (name, value) :: rest, merged =>
    match merged.get name with
    | some previous =>
      if previous ≠ value then none else mergeReadings rest (merged.set name value)
    | none => mergeReadings rest (merged.set name value)

/-- `_hplt_derivation_guard`. -/
def hpltDerivationGuard (monomial : List Int) (guards : Int → Guard) : Option Guard :=
  (mergeReadings (monomial.flatMap guards) Dict.empty).map fun merged => merged.sortedBy id

/-- `_hplt_guard_provenance`. -/
def hpltGuardProvenance (problem : HDEMProblem) (guard : Guard) : List Int :=
  sortedSet id ((problem.constraints.flatMap fun k => k.witnessFactIds) ++
    guard.flatMap fun p => factIdsOf problem p.1 p.2)

def proofOf (problem : HDEMProblem) (monomial : List Int) (guard : Guard) : List Int :=
  sortedSet id (monomial ++ hpltGuardProvenance problem guard)

/-- `by_output`, as outputs in order. -/
def outputsOf (items : List (List String × List (List Int))) : List SigmaPBAOutput :=
  (collected items).map fun group => ⟨group.1, group.2⟩

def stateOf (outputs : List SigmaPBAOutput) : ProofState :=
  if outputs.length = 1 then .resolved else .contested

namespace HPLTQuery

variable (c : Crypto) (q : HPLTQuery)

/-- `guards_by_fact`. -/
def guardOf (factId : Int) : Guard :=
  ((q.guardedFacts.find? fun candidate => candidate.fact.factId = factId).map
    HPLTGuardedFact.guard).getD []

def executor (facts : List AuthorizedFact) : Except PyError SigmaPBAExecutor :=
  SigmaPBAExecutor.make q.sources facts q.scope q.allowedRules q.nogoods

/-- The budgets of Proof Attention, with `max_hops` at its default. -/
def budgets : Budgets := ⟨6, q.maxCandidateChecks, q.maxEvidenceBytes, q.maxEnvironments⟩

def active (world : HDEMWorld) : List AuthorizedFact :=
  (q.guardedFacts.filter fun candidate =>
    ∀ p ∈ candidate.guard, world.assignment.lookup p.1 = some p.2).map HPLTGuardedFact.fact

/-- What the loop over the worlds has collected. -/
structure Collection where
  items : List (List String × List (List Int))
  totalChecks : Nat
  totalBytes : Nat

def itemsOf (result : SigmaPBAResult) : List (List String × List (List Int)) :=
  result.outputs.map fun output => (output.values, output.provenance.filterMap fun monomial =>
    (hpltDerivationGuard monomial q.guardOf).map (proofOf q.problem monomial))

def latticeResult (lattice : HDEMResult) (state : ProofState) (outputs : List SigmaPBAOutput)
    (s : Collection) (reason : String) : HPLTResult :=
  ⟨state, outputs, lattice.complete, lattice.worlds.length, lattice.exploredStates,
    lattice.prunedValues, s.totalChecks, s.totalBytes, lattice.problemSha256, reason⟩

def overWorlds (lattice : HDEMResult) : List HDEMWorld → Collection → Except PyError HPLTRun
  | [], s =>
    let outputs := outputsOf s.items
    .ok ⟨latticeResult lattice (stateOf outputs) outputs s
      (if outputs.length = 1 then "all_complete_interpretation_worlds_agree"
        else "complete_interpretation_worlds_disagree"), false⟩
  | world :: rest, s =>
    if q.active world = [] then
      .ok ⟨latticeResult lattice .abstain [] s "interpretation_world_has_no_authorized_fact", false⟩
    else do
      let executor ← q.executor (q.active world)
      let result ← executeProofAttention c executor q.program q.budgets
      let s : Collection := ⟨s.items ++ q.itemsOf result, s.totalChecks + result.candidateChecks,
        s.totalBytes + result.evidenceBytes⟩
      if result.state = .abstain then
        .ok ⟨latticeResult lattice .abstain [] s
          "at_least_one_complete_world_does_not_close_the_query", decide result.Exhausted⟩
      else overWorlds lattice rest s

def overLattice (lattice : HDEMResult) : Except PyError HPLTRun :=
  if ¬ lattice.complete then
    .ok ⟨latticeResult lattice .abstain [] ⟨[], 0, 0⟩ "interpretation_lattice_budget_exhausted",
      true⟩
  else if lattice.worlds = [] then
    .ok ⟨latticeResult lattice .abstain [] ⟨[], 0, 0⟩ "no_complete_interpretation_world", false⟩
  else overWorlds c q lattice lattice.worlds ⟨[], 0, 0⟩

/-- What the loop over the derivations has found. -/
structure Coverage where
  explored : Nat
  pruned : Nat
  live : List Guard
  items : List (List String × List (List Int))

def symbolicResult (paths : Nat × Nat) (state : ProofState) (outputs : List SigmaPBAOutput)
    (complete : Bool) (s : Coverage) (reason : String) : HPLTResult :=
  ⟨state, outputs, complete, 0, s.explored, s.pruned, paths.1, paths.2,
    q.problem.canonicalSha256 c, reason⟩

/-- One derivation: it is live when some world takes the readings of its guard. -/
def cover (paths : Nat × Nat) (s : Coverage) (path : List String × List Int) :
    Except HPLTResult Coverage :=
  match hpltDerivationGuard path.2 q.guardOf with
  | none => .ok s
  | some guard =>
    let found := hpltFindWorld q.problem guard [] q.maxLatticeStates
    let s := { s with explored := s.explored + found.explored, pruned := s.pruned + found.pruned }
    if ¬ found.complete then
      .error (symbolicResult c q paths .abstain [] false s
        "interpretation_lattice_budget_exhausted")
    else if found.witness = none then .ok s
    else .ok { s with
      live := s.live ++ [guard]
      items := s.items ++ [(path.1, [proofOf q.problem path.2 guard])] }

/-- `lattice_mode == "symbolic"`. -/
def symbolic : Except PyError HPLTRun :=
  let initial := hpltFindWorld q.problem [] [] q.maxLatticeStates
  let s : Coverage := ⟨initial.explored, initial.pruned, [], []⟩
  if ¬ initial.complete then
    .ok ⟨symbolicResult c q (0, 0) .abstain [] false s "interpretation_lattice_budget_exhausted",
      true⟩
  else if initial.witness = none then
    .ok ⟨symbolicResult c q (0, 0) .abstain [] true s "no_complete_interpretation_world", false⟩
  else do
    let executor ← q.executor (q.guardedFacts.map HPLTGuardedFact.fact)
    let result ← executeProofAttention c executor q.program q.budgets
    let paths := (result.candidateChecks, result.evidenceBytes)
    if result.state = .abstain then
      .ok ⟨symbolicResult c q paths .abstain [] true s "no_symbolic_proof_path_closes_the_query",
        decide result.Exhausted⟩
    else
      match (result.outputs.flatMap fun output =>
          output.provenance.map fun monomial => (output.values, monomial)).foldlM
            (cover c q paths) s with
      | .error r => .ok ⟨r, true⟩
      | .ok s =>
        if s.live = [] then
          .ok ⟨symbolicResult c q paths .abstain [] true s
            "no_guarded_proof_path_is_interpretation_consistent", false⟩
        else
          let uncovered := hpltFindWorld q.problem []
            (sortedSet (fun guard : Guard => guard.map toLex) s.live) q.maxLatticeStates
          let s := { s with
            explored := s.explored + uncovered.explored
            pruned := s.pruned + uncovered.pruned }
          if ¬ uncovered.complete then
            .ok ⟨symbolicResult c q paths .abstain [] false s
              "interpretation_lattice_budget_exhausted", true⟩
          else if uncovered.witness ≠ none then
            .ok ⟨symbolicResult c q paths .abstain [] true s
              "at_least_one_complete_world_does_not_close_the_query", false⟩
          else
            let outputs := outputsOf s.items
            .ok ⟨symbolicResult c q paths (stateOf outputs) outputs true s
              (if outputs.length = 1 then "symbolic_counterexample_search_proves_consensus"
                else "symbolic_paths_prove_multiple_possible_answers"), false⟩

/-- What every mode is asked for first. -/
structure Checked : Prop where
  supplied : q.guardedFacts ≠ [] ∧ q.sources ≠ [] ∧ q.scope ≠ "" ∧ q.allowedRules ≠ []
  positive : 1 ≤ q.maxLatticeStates ∧ 1 ≤ q.maxLatticeWorlds ∧ 1 ≤ q.maxCandidateChecks ∧
    1 ≤ q.maxEvidenceBytes ∧ 1 ≤ q.maxEnvironments
  factIds : (q.guardedFacts.map fun candidate => candidate.fact.factId).Nodup
  known : ∀ candidate ∈ q.guardedFacts, candidate.guard.Known q.problem

/-- `execute_proof_lattice_attention`, with whether a budget ran out. -/
def run (mode : LatticeMode) : Except PyError HPLTRun := do
  require (q.guardedFacts ≠ [] ∧ q.sources ≠ [] ∧ q.scope ≠ "" ∧ q.allowedRules ≠ [])
    (PyError.valueError "H-PLT requires a finite problem, guarded facts, sources and authority")
  require (1 ≤ q.maxLatticeStates ∧ 1 ≤ q.maxLatticeWorlds ∧ 1 ≤ q.maxCandidateChecks ∧
      1 ≤ q.maxEvidenceBytes ∧ 1 ≤ q.maxEnvironments)
    (PyError.valueError "H-PLT budgets must be positive")
  require (q.guardedFacts.map fun candidate => candidate.fact.factId).Nodup
    (PyError.valueError "H-PLT candidate FactIds must be unique")
  require (∀ candidate ∈ q.guardedFacts, candidate.guard.Known q.problem)
    (PyError.valueError "H-PLT guard references an unknown lattice reading")
  match mode with
  | .symbolic => symbolic c q
  | .packed => do
    let lattice ← solveHdemPacked c q.problem q.maxLatticeStates q.maxLatticeWorlds
    overLattice c q lattice
  | .enumerative => do
    let lattice ← solveHdemEnumerative c q.problem q.maxLatticeStates
    overLattice c q lattice

/-- `execute_proof_lattice_attention`. -/
def execute (mode : LatticeMode) : Except PyError HPLTResult :=
  (run c q mode).map HPLTRun.result

end HPLTQuery

end ProofRay.Attention
