/- The checker of linearizability: the sequential model of the memory and the memoised
   search for an order of a history (`horizon_linearizability.py`). -/

import ProofRay.Lib.Dict
import ProofRay.Lib.MemoSearch
import Mathlib.Data.Nat.Bitwise
import Mathlib.Order.WithBot
import Mathlib.Algebra.Order.Ring.Int

namespace ProofRay.Engine.Linearizability

open Lib (Dict)
open Lib.Guard
open Lib.MemoSearch

/-- The kinds of an operation; the source holds them as text. -/
inductive Kind where
  | put
  | delete
  | read
  | capture
  | rotate
  | compact
  | recover
  | other (text : String)
  deriving DecidableEq, Repr

/-- `_WRITES`. -/
def Kind.isWrite : Kind → Bool
  | .put | .delete => true
  | _ => false

/-- What a result tuple is made of. -/
inductive Atom where
  | none
  | int (n : Int)
  | text (s : String)
  deriving DecidableEq, Repr

def Atom.ofOption : Option Int → Atom
  | some n => .int n
  | .none => .none

abbrev Result := List Atom

/-- An observed operation; the name of its actor is not read by the checker. -/
structure Op where
  invId : Int
  kind : Kind
  invocation : Int
  response : Option Int
  operationId : Option Int
  factId : Option Int
  version : Option Int
  value : Option Int
  result : Option Result
  snapshotOf : Option Int
  deriving DecidableEq, Repr

def applied : String := "APPLIED"
def idempotent : String := "IDEMPOTENT"
def staleRejected : String := "STALE_REJECTED"
def versionConflict : String := "VERSION_CONFLICT"
def dedupReplay : String := "DEDUP_REPLAY"
def txidConflict : String := "TXID_CONFLICT"
def present : String := "present"
def deleted : String := "deleted"
def notFound : String := "not_found"

/-- The exception a comparison with `None` ends with. -/
inductive LinError where
  | typeError
  deriving DecidableEq, Repr

/-- The tuple a fact is kept as. -/
structure Versioned where
  version : Option Int
  kind : Kind
  value : Option Int
  deriving DecidableEq, Repr

/-- `version < cv` on integers; `None` cannot be compared. -/
def pyLess : Option Int → Option Int → Except LinError Bool
  | some a, some b => .ok (a < b)
  | _, _ => .error .typeError

/-- `_preflight`. -/
def preflight (cur : Option Versioned) (version value : Option Int) (kind : Kind) :
    Except LinError String :=
  match cur with
  | none => .ok applied
  | some c => do
    if ← pyLess version c.version then return staleRejected
    else if version = c.version then
      return if kind = c.kind ∧ value = c.value then idempotent else versionConflict
    else return applied

/-- The outcomes of `apply_op`. -/
inductive Outcome where
  | valid
  | invalid
  | notReady
  deriving DecidableEq, Repr

/-- What tells two commands of one id apart. -/
structure Digest where
  kind : Kind
  factId : Option Int
  version : Option Int
  value : Option Int
  deriving DecidableEq, Repr

def commandDigest (op : Op) : Digest := ⟨op.kind, op.factId, op.version, op.value⟩

/-- What the memory of an operation id holds. -/
structure Remembered where
  digest : Digest
  status : String
  seq : Int
  deriving DecidableEq, Repr

abbrev FactsTuple := List (Option Int × Versioned)

/-- What a capture froze. -/
structure Capture where
  facts : FactsTuple
  readSeq : Int
  generation : Int
  deriving DecidableEq, Repr

structure State where
  facts : Dict (Option Int) Versioned
  dedup : Dict Int Remembered
  readSeq : Int
  generation : Int
  captures : Dict Int Capture

/-- The order of Python on fact ids, once `None` is out of the way. -/
def factRank (factId : Option Int) : WithBot Int := factId

/-- `sorted(facts.items())`: `None` beside an integer cannot be compared. -/
def factsSnapshot (s : State) : Except LinError FactsTuple := do
  require (s.facts.items.length ≤ 1 ∨ none ∉ s.facts.keys) .typeError
  return s.facts.sortedBy factRank

structure StateKey where
  facts : FactsTuple
  dedup : List (Int × Remembered)
  readSeq : Int
  generation : Int
  captures : List (Int × Capture)
  deriving DecidableEq

def State.key (s : State) : Except LinError StateKey := do
  let facts ← factsSnapshot s
  return ⟨facts, s.dedup.sortedBy id, s.readSeq, s.generation, s.captures.sortedBy id⟩

/-- A write on the sequential model: an id in the memory is answered from it, and only an
applied write enters it. -/
def applyWrite (s : State) (op : Op) : Except LinError (State × Result) :=
  match op.operationId.bind s.dedup.get with
  | some stored =>
    if commandDigest op = stored.digest then
      .ok (s, if stored.status = applied then [.text dedupReplay, .int stored.seq]
        else [.text stored.status, .none])
    else .ok (s, [.text txidConflict, .none])
  | none => do
    let decision ← preflight (s.facts.get op.factId) op.version op.value op.kind
    if decision = applied then
      let seq := s.readSeq + 1
      let value := if op.kind = .delete then none else op.value
      let dedup := match op.operationId with
        | none => s.dedup
        | some id => s.dedup.set id ⟨commandDigest op, applied, seq⟩
      return ({ s with readSeq := seq, facts := s.facts.set op.factId ⟨op.version, op.kind, value⟩
                       dedup := dedup }, [.text applied, .int seq])
    else return (s, [.text decision, .none])

def readResult : Option Versioned → Result
  | none => [.text notFound, .none]
  | some v =>
    if v.kind = .delete then [.text deleted, .none] else [.text present, .ofOption v.value]

/-- `apply_op`: the state after, the outcome and the expected answer (empty when there is
none). -/
def applyOp (captureIds : List Int) (s : State) (op : Op) :
    Except LinError (State × Outcome × Result) :=
  match op.kind with
  | .put | .delete => do
    let (s', expected) ← applyWrite s op
    return (s', .valid, expected)
  | .read =>
    match op.snapshotOf with
    | none => .ok (s, .valid, readResult (s.facts.get op.factId))
    | some id =>
      if id ∉ captureIds then .ok (s, .invalid, [])
      else
        match s.captures.get id with
        | none => .ok (s, .notReady, [])
        | some frozen =>
          .ok (s, .valid, readResult (Dict.lookupEntry op.factId frozen.facts))
  | .capture => do
    let facts ← factsSnapshot s
    return ({ s with captures := s.captures.set op.invId ⟨facts, s.readSeq, s.generation⟩ },
      .valid, [.int s.generation, .int s.readSeq])
  | .rotate => .ok (s, .valid, [.int s.generation])
  | .compact => .ok ({ s with generation := s.generation + 1 }, .valid, [.int (s.generation + 1)])
  | .recover => .ok (s, .valid, [.text "recovered"])
  | .other _ => .ok (s, .invalid, [])

inductive CheckVerdict where
  | linearizable
  | nonLinearizable
  | budgetExhausted
  deriving DecidableEq, Repr

structure CheckResult where
  verdict : CheckVerdict
  reason : String
  counterexample : List Int
  statesExplored : Nat
  deriving DecidableEq, Repr

/-- `b` was answered before `a` was called. -/
def precedes (b a : Op) : Bool := b.response.any fun r => r < a.invocation

/-- `_real_time_preds`: the positions of the operations that have to come before. -/
def realTimePreds (ops : List Op) (i : Nat) (op : Op) : List Nat :=
  (List.range ops.length).filter fun j => j ≠ i ∧ (ops[j]?.any fun other => precedes other op)

def completeMask (ops : List Op) : Nat :=
  (List.range ops.length).foldl
    (fun mask i => if ops[i]?.any fun op => op.response.isSome then mask ||| 1 <<< i else mask) 0

/-- `bin(mask).count("1")`. -/
def bitCount (mask : Nat) : Nat := mask.bits.count true

def agrees (op : Op) (expected : Result) : Bool :=
  op.response.isNone || op.result.all fun result => decide (expected = result)

abbrev Node := Nat × State

/-- The next operation of a node at position `i`, when it can be linearized there. -/
def linearizeNext (ops : List Op) (captureIds : List Int) (node : Node) (i : Nat) :
    Except LinError (Option Node) :=
  match ops[i]? with
  | none => .ok none
  | some op =>
    if node.1.testBit i then .ok none
    else if (realTimePreds ops i op).any fun j => !node.1.testBit j then .ok none
    else do
      let (s', outcome, expected) ← applyOp captureIds node.2 op
      if outcome ≠ .valid then return none
      else if ¬ agrees op expected then return none
      else return some (node.1 ||| 1 <<< i, s')

def captureIds (ops : List Op) : List Int :=
  (ops.filter fun op => op.kind = .capture).map Op.invId

/-- The most completed operations linearized so far, and the mask that held them. -/
abbrev Best := Int × Nat

def space (ops : List Op) : Space Node (Nat × StateKey) Nat Best LinError where
  goal node := node.1 &&& completeMask ops = completeMask ops
  key node := do
    let k ← node.2.key
    return (node.1, k)
  branches := List.range ops.length
  child := linearizeNext ops (captureIds ops)
  note node best :=
    let completed : Int := bitCount (node.1 &&& completeMask ops)
    if best.1 < completed then (completed, node.1) else best

def State.init (facts : Dict (Option Int) Versioned) (readSeq generation : Int) : State :=
  ⟨facts, Dict.empty, readSeq, generation, Dict.empty⟩

/-- `check_linearizable`.  A path has at most one node more than there are operations. -/
def checkLinearizable (ops : List Op) (maxStates initialReadSeq initialGeneration : Int)
    (initialFacts : Dict (Option Int) Versioned) : Except LinError CheckResult := do
  let init := State.init initialFacts initialReadSeq initialGeneration
  let (found, trail) ← visit (space ops) maxStates (ops.length + 1) (0, init)
    ⟨[], 0, false, (-1, 0)⟩
  if found then return ⟨.linearizable, "linearizável", [], trail.explored⟩
  else if trail.exhausted then
    return ⟨.budgetExhausted, s!"orçamento esgotado ({maxStates} estados)", [], trail.explored⟩
  else
    let stuck := (List.range ops.length).filter fun i =>
      (completeMask ops).testBit i && !trail.notes.2.testBit i
    return ⟨.nonLinearizable, "não-linearizável (nenhuma ordem reproduz as respostas)",
      (stuck.filterMap fun i => ops[i]?).map Op.invId, trail.explored⟩

end ProofRay.Engine.Linearizability
