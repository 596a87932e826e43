/- Exact programs over the facts of one scope: the latest report of each event orbit, the
   lookup by observation clock, and the six operators. -/

import Mathlib.Data.List.Dedup
import ProofRay.Sidecar.Facts

namespace ProofRay.Sidecar

open Engine (PyError)
open Lib.Guard

def FactFields.signature (f : FactFields) : String × String × Int × Bool × Nat × List Nat :=
  (f.value, f.unit, f.polarity, f.asserted, f.eventTime, f.causes)

/-- `(version, observed_at)` of `g` is later than that of `f`. -/
def FactFields.later (g f : FactFields) : Bool :=
  f.version < g.version || (f.version = g.version && f.observedAt < g.observedAt)

def latestRows (rows : List FactFields) : List FactFields :=
  rows.filter fun f => rows.all fun g => !g.later f

/-- `min(rows, key=lambda fact: fact.fact_id)`. -/
def leastId : List FactFields → Option FactFields
  | [] => none
  | f :: rest =>
    match leastId rest with
    | none => some f
    | some g => if f.factId ≤ g.factId then some f else some g

def settle (rows : List FactFields) : Option FactFields :=
  let latest := latestRows rows
  if latest.all fun f => latest.all fun g => f.signature = g.signature then leastId latest else none

/-- `sorted(by_orbit)`. -/
def orbits (facts : List FactFields) : List String :=
  (facts.map FactFields.orbit).dedup.insertionSort (· ≤ ·)

/-- `_latest_orbits`. -/
def latestOrbits (facts : List FactFields) : Option (List FactFields) :=
  (orbits facts).mapM fun orbit => settle (facts.filter fun f => f.orbit = orbit)

/-- `_selected_population`. -/
def selectedPopulation (facts : List FactFields) (subject predicate : String) : Option (List Nat) :=
  (latestOrbits (facts.filter fun f => f.key = (subject, predicate))).map fun selected =>
    (selected.map FactFields.factId).insertionSort (· ≤ ·)

inductive Operator where
  | lookup
  | countDistinct
  | sum
  | interval
  | duration
  | explainCause
  deriving DecidableEq, Repr

/-- `CausalSelector`. -/
structure CausalSelector where
  subject : String
  predicate : String
  value : Option String
  deriving DecidableEq, Repr

/-- `TypedCausalProgram`. -/
structure TypedCausalProgram where
  operator : Operator
  selector : CausalSelector
  operands : List CausalSelector
  unit : String
  atTime : Option Nat
  closedWorld : Bool
  deriving DecidableEq, Repr

inductive ResultState where
  | resolved
  | abstain
  | unsupported
  deriving DecidableEq, Repr

/-- `TypedCausalProof`. -/
structure TypedCausalProof where
  factId : Nat
  sourceId : String
  sourceSha256 : String
  sourceSpan : Nat × Nat
  deriving DecidableEq, Repr

/-- `TypedCausalResult`. -/
structure TypedCausalResult where
  state : ResultState
  value : Option String
  unit : String
  factIds : List Nat
  reason : String
  proofs : List TypedCausalProof
  examinedFactIds : List Nat
  deriving DecidableEq, Repr

namespace TypedCausalResult

def without (state : ResultState) (reason : String) : TypedCausalResult :=
  ⟨state, none, "", [], reason, [], []⟩

def abstain (reason : String) : TypedCausalResult := without .abstain reason

def unsupported (reason : String) : TypedCausalResult := without .unsupported reason

def resolved (value unit : String) (factIds : List Nat) (reason : String) : TypedCausalResult :=
  ⟨.resolved, some value, unit, factIds, reason, [], []⟩

end TypedCausalResult

/-- `TypedCausalExecutor`: its indexes are functions of the facts. -/
structure TypedCausalExecutor where
  facts : List TypedCausalFact
  scope : String
  deriving DecidableEq

namespace TypedCausalExecutor

/-- `TypedCausalExecutor.__init__`. -/
def make (facts : List TypedCausalFact) (scope : String) : Except PyError TypedCausalExecutor := do
  require (facts ≠ [] ∧ scope ≠ "")
    (PyError.valueError "typed causal executor needs a scope and facts")
  require (Canonical (facts.map fun f => f.factId))
    (PyError.valueError "typed causal facts must be FactId-canonical")
  require (∀ f ∈ facts, f.scope = scope)
    (PyError.valueError "facts from different scopes require separate executors")
  require (∀ f ∈ facts, ∀ cause ∈ f.causes, cause ∈ facts.map fun g => g.factId)
    (PyError.valueError "every causal edge must reference a fact in the same boundary")
  return ⟨facts, scope⟩

variable (x : TypedCausalExecutor)

def rows : List FactFields := x.facts.map fun f => f.toFactFields

/-- `by_id[fact_id]`. -/
def byId (factId : Nat) : Option FactFields := x.rows.find? fun f => f.factId = factId

/-- `fibers.get(key, ())`. -/
def fiber (selector : CausalSelector) : List FactFields :=
  x.rows.filter fun f => f.key = (selector.subject, selector.predicate)

/-- `(version, event_time, observed_at)` of `g` is later than that of `f`. -/
def wins (g f : FactFields) : Bool :=
  f.version < g.version || (f.version = g.version &&
    (f.eventTime < g.eventTime || (f.eventTime = g.eventTime && f.observedAt < g.observedAt)))

def contend (winners : List FactFields) (f : FactFields) : List FactFields :=
  match winners with
  | [] => [f]
  | w :: rest => if wins f w then [f] else if wins w f then w :: rest else (w :: rest) ++ [f]

/-- The winners of `_build_lookup_prefix` once every fact observed by the instant is in. -/
def winners (facts : List FactFields) (atTime : Option Nat) : List FactFields :=
  let timely := facts.filter fun f => atTime.all fun instant => f.observedAt ≤ instant
  let ordered := timely.insertionSort fun f g => f.observedAt ≤ g.observedAt
  (ordered.foldl contend []).insertionSort fun f g => f.factId ≤ g.factId

/-- `_selected`, with the FactIds it looked at. -/
def selected (selector : CausalSelector) (atTime : Option Nat) :
    Option (List FactFields) × List Nat :=
  let fiber := x.fiber selector
  let timely := fiber.filter fun f => atTime.all fun instant => f.observedAt ≤ instant
  ((latestOrbits timely).map fun latest =>
      latest.filter fun f => selector.value.all fun value => f.value = value,
    fiber.map FactFields.factId)

/-- `_lookup_selected`. -/
def lookupSelected (selector : CausalSelector) (atTime : Option Nat) : List FactFields × List Nat :=
  match selector.value with
  | some _ =>
    let (found, examined) := x.selected selector atTime
    (found.getD [], examined)
  | none =>
    let found := winners (x.fiber selector) atTime
    (found, found.map FactFields.factId)

def answer (f : FactFields) : String × String × Int × Bool :=
  (f.value, f.unit, f.polarity, f.asserted)

def lookup (program : TypedCausalProgram) : TypedCausalResult × List Nat :=
  let (latest, examined) := x.lookupSelected program.selector program.atTime
  let result :=
    match leastId latest with
    | none => .abstain "no_matching_fact"
    | some witness =>
      if latest.all fun f => answer f = answer witness then
        if witness.asserted = false then .abstain "uncertain_fact"
        else if witness.polarity < 0 then .abstain "latest_state_is_negative"
        else .resolved witness.value witness.unit [witness.factId] "unique_latest_state"
      else if latest.all fun f => f.orbit = witness.orbit then .abstain "conflicting_latest_orbit"
      else .abstain "contested_latest_state"
  (result, examined)

def temporalOperand (selector : CausalSelector) (atTime : Option Nat) :
    Option FactFields × List Nat :=
  match x.selected selector atTime with
  | (some [f], examined) =>
    (if f.asserted = false ∨ f.polarity < 0 then none else some f, examined)
  | (_, examined) => (none, examined)

def interval (program : TypedCausalProgram) : TypedCausalResult × List Nat :=
  match program.operands with
  | [operand] =>
    let (first, examined) := x.temporalOperand program.selector program.atTime
    match first with
    | none => (.abstain "temporal_operand_not_unique", examined)
    | some f =>
      let (second, examined') := x.temporalOperand operand program.atTime
      match second with
      | none => (.abstain "temporal_operand_not_unique", examined ++ examined')
      | some g =>
        let distance := max f.eventTime g.eventTime - min f.eventTime g.eventTime
        (.resolved (toString distance) (if program.unit = "" then "tick" else program.unit)
          [f.factId, g.factId] "exact_causal_clock_difference", examined ++ examined')
  | _ => (.unsupported "two_temporal_operands_required", [])

def explain (program : TypedCausalProgram) (active : List FactFields) : TypedCausalResult :=
  match active with
  | [effect] =>
    if effect.causes = [] then .abstain "unique_causal_edge_required"
    else
      let causes := effect.causes.filterMap x.byId
      if causes.any fun f => program.atTime.any fun instant => instant < f.observedAt then
        .abstain "cause_outside_light_cone"
      else if causes.any fun f => f.asserted = false ∨ f.polarity < 0 then
        .abstain "cause_not_authoritative"
      else .resolved (" | ".intercalate (causes.map FactFields.value)) ""
        (effect.factId :: causes.map FactFields.factId) "explicit_causal_hyperedge"
  | _ => .abstain "unique_causal_edge_required"

/-- What the operators other than `LOOKUP` make of the facts selected first.  `sumDecimals` is
`sum(Decimal(v) for v in values)` as `_format` renders it, where each text is a number. -/
def aggregate (sumDecimals : List String → Option String) (program : TypedCausalProgram)
    (active : List FactFields) : TypedCausalResult × List Nat :=
  match program.operator with
  | .countDistinct =>
    (.resolved (toString (active.map FactFields.value).dedup.length) "count"
      (active.map FactFields.factId) "closed_world_distinct_count", [])
  | .sum =>
    if active = [] then (.abstain "no_positive_measurements", [])
    else if program.unit = "" ∨ ¬ ∀ f ∈ active, f.unit = program.unit then
      (.abstain "unit_not_conserved", [])
    else
      match sumDecimals (active.map FactFields.value) with
      | none => (.abstain "non_numeric_measurement", [])
      | some total =>
        (.resolved total program.unit (active.map FactFields.factId) "closed_world_exact_sum", [])
  | .explainCause => (x.explain program active, [])
  | _ => x.interval program

/-- `_execute`, with the FactIds it looked at. -/
def run (sumDecimals : List String → Option String) (program : TypedCausalProgram) :
    TypedCausalResult × List Nat :=
  if program.operator = .lookup then x.lookup program
  else
    let (found, examined) := x.selected program.selector program.atTime
    match found with
    | none => (.abstain "conflicting_latest_orbit", examined)
    | some [] => (.abstain "no_matching_fact", examined)
    | some facts =>
      if facts.any fun f => f.asserted = false then (.abstain "uncertain_fact", examined)
      else if (program.operator = .countDistinct ∨ program.operator = .sum) ∧
          program.closedWorld = false then (.unsupported "closed_world_required", examined)
      else
        let (result, more) :=
          x.aggregate sumDecimals program (facts.filter fun f => 0 < f.polarity)
        (result, examined ++ more)

/-- `TypedCausalExecutor.execute`. -/
def execute (sumDecimals : List String → Option String) (program : TypedCausalProgram) :
    TypedCausalResult :=
  let (result, examined) := x.run sumDecimals program
  { result with
    proofs := (result.factIds.filterMap x.byId).map fun f =>
      ⟨f.factId, f.sourceId, f.sourceSha256, f.sourceSpan⟩
    examinedFactIds := examined.dedup.insertionSort (· ≤ ·) }

end TypedCausalExecutor

end ProofRay.Sidecar
