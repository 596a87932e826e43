/- The version line of a fact, the L0 index, the operation-id index and the two
   decision rules that ingress and replay share (`horizon_store.py`). -/

import ProofRay.Engine.Basis
import ProofRay.Lib.Dict

namespace ProofRay.Engine

open Lib (Dict)

/-- The current version of a fact: `(version, op, value)`. -/
structure VersionedFact where
  version : Int
  op : Op
  value : Option Int
  deriving DecidableEq, Repr

/-- The answers of the version rule. -/
inductive Decision where
  | applied
  | stale
  | idempotent
  | conflict
  deriving DecidableEq, Repr

/-- The version rule without mutation; `cur` is `none` for a new fact. -/
def preflight (cur : Option VersionedFact) (op : Op) (version : Int) (value : Option Int) :
    Decision :=
  match cur with
  | none => .applied
  | some c =>
    if version < c.version then .stale
    else if version = c.version then
      if op = c.op ∧ value = c.value then .idempotent else .conflict
    else .applied

abbrev FactLine := Dict Int VersionedFact

def applyVersioned (state : FactLine) (factId version : Int) (op : Op) (value : Option Int) :
    Decision × FactLine :=
  match state.get factId with
  | none => (.applied, state.set factId ⟨version, op, value⟩)
  | some cur =>
    if cur.version < version then (.applied, state.set factId ⟨version, op, value⟩)
    else if version = cur.version then
      if op = cur.op ∧ value = cur.value then (.idempotent, state) else (.conflict, state)
    else (.stale, state)

theorem applyVersioned_decision (state : FactLine) (factId version : Int) (op : Op)
    (value : Option Int) :
    (applyVersioned state factId version op value).1 =
      preflight (state.get factId) op version value := by
  unfold applyVersioned preflight
  cases state.get factId with
  | none => rfl
  | some cur =>
    simp only
    rcases lt_trichotomy version cur.version with less | same | more
    · rw [if_neg (by omega), if_neg (by omega), if_pos less]
    · simp only [same, lt_irrefl, if_false, if_true]
      split <;> rfl
    · rw [if_pos more, if_neg (by omega), if_neg (by omega)]

theorem applyVersioned_state (state : FactLine) (factId version : Int) (op : Op)
    (value : Option Int) :
    (applyVersioned state factId version op value).2 =
      if preflight (state.get factId) op version value = .applied then
        state.set factId ⟨version, op, value⟩
      else state := by
  rw [← applyVersioned_decision]
  unfold applyVersioned
  cases state.get factId with
  | none => rfl
  | some cur =>
    simp only
    split
    · rfl
    · split
      · split <;> rfl
      · rfl

inductive ModelRead where
  | notFound
  | deleted
  | value (v : Option Int)
  deriving DecidableEq, Repr

/-- The authoritative sequential model: one version line a fact. -/
structure SequentialModel where
  state : FactLine
  conflicts : Nat

namespace SequentialModel

def init : SequentialModel := ⟨Dict.empty, 0⟩

def apply (m : SequentialModel) (factId version : Int) (op : Op) (value : Option Int) :
    Decision × SequentialModel :=
  let (r, state) := applyVersioned m.state factId version op value
  (r, ⟨state, if r = .conflict then m.conflicts + 1 else m.conflicts⟩)

def put (m : SequentialModel) (factId value version : Int) : Decision × SequentialModel :=
  m.apply factId version .put (some value)

def delete (m : SequentialModel) (factId version : Int) : Decision × SequentialModel :=
  m.apply factId version .delete none

def read (m : SequentialModel) (factId : Int) : ModelRead :=
  match m.state.get factId with
  | none => .notFound
  | some cur => if cur.op = .delete then .deleted else .value cur.value

end SequentialModel

/-- The L0 index, keyed by fact. -/
@[ext] structure WalIndex where
  state : FactLine
  conflicts : Nat
  deriving DecidableEq

namespace WalIndex

def init : WalIndex := ⟨Dict.empty, 0⟩

def get (i : WalIndex) (factId : Int) : Option VersionedFact := i.state.get factId

def apply (i : WalIndex) (factId version : Int) (op : Op) (value : Option Int) :
    Decision × WalIndex :=
  let (r, state) := applyVersioned i.state factId version op value
  (r, ⟨state, if r = .conflict then i.conflicts + 1 else i.conflicts⟩)

end WalIndex

/-- The answers of `TxIdIndex.check`. -/
inductive TxCheck where
  | new
  | dedupReplay
  | txidConflict
  deriving DecidableEq, Repr

/-- The operation ids of the current log: id to (content digest, sequence). -/
@[ext] structure TxIdIndex where
  m : Dict Bytes (Bytes × Int)
  deriving DecidableEq

namespace TxIdIndex

def init : TxIdIndex := ⟨Dict.empty⟩

def check (t : TxIdIndex) (operationId digest : Bytes) : TxCheck :=
  match t.m.get operationId with
  | none => .new
  | some e => if e.1 = digest then .dedupReplay else .txidConflict

def getSeq (t : TxIdIndex) (operationId : Bytes) : Option Int :=
  (t.m.get operationId).map Prod.snd

def record (t : TxIdIndex) (operationId digest : Bytes) (seq : Int) : TxIdIndex :=
  ⟨t.m.set operationId (digest, seq)⟩

end TxIdIndex

/-- The answers of a base to `lookup`; the two sentinels are constructors. -/
inductive BaseFact where
  | absent
  | abstain
  | fact (f : VersionedFact)
  deriving DecidableEq, Repr

/-- The answers of a base to `dedupProbe`. -/
inductive Probe where
  | new
  | replay (seq : Int)
  | conflict
  | expired
  | abstain
  deriving DecidableEq, Repr

/-- The authority of the generation under the log. -/
structure BaseView where
  lookup : Int → BaseFact
  dedupProbe : Bytes → Bytes → Probe

def emptyBaseView : BaseView := ⟨fun _ => .absent, fun _ _ => .new⟩

/-- The decisions of `classifyDedup`. -/
inductive Dedup where
  | dedupReplay (seq : Option Int)
  | txidConflict
  | idempotencyExpired
  | abstainBase
  | new
  deriving DecidableEq, Repr

def classifyDedup (walCheck : TxCheck) (walGetSeq : Bytes → Option Int) (base : BaseView)
    (operationId digest : Bytes) : Dedup :=
  match walCheck with
  | .dedupReplay => .dedupReplay (walGetSeq operationId)
  | .txidConflict => .txidConflict
  | .new =>
    match base.dedupProbe operationId digest with
    | .replay seq => .dedupReplay (some seq)
    | .conflict => .txidConflict
    | .expired => .idempotencyExpired
    | .abstain => .abstainBase
    | .new => .new

theorem classifyDedup_eq_new_iff (check : TxCheck) (getSeq : Bytes → Option Int)
    (base : BaseView) (operationId digest : Bytes) :
    classifyDedup check getSeq base operationId digest = .new ↔
      check = .new ∧ base.dedupProbe operationId digest = .new := by
  cases check with
  | new =>
    simp only [classifyDedup, true_and]
    cases base.dedupProbe operationId digest <;> simp
  | dedupReplay => simp [classifyDedup]
  | txidConflict => simp [classifyDedup]

/-- The version in force for a fact: the log's entry, otherwise what the base says.  The
base is asked only on a miss; the outer `none` is a base that cannot be read.  Ingress
and replay write these lines each on its own. -/
def currentVersion (index : WalIndex) (base : BaseView) (factId : Int) :
    Option (Option VersionedFact) :=
  match index.get factId with
  | some cur => some (some cur)
  | none =>
    match base.lookup factId with
    | .abstain => none
    | .absent => some none
    | .fact f => some (some f)

theorem preflight_eq_applied_iff (cur : Option VersionedFact) (op : Op) (version : Int)
    (value : Option Int) :
    preflight cur op version value = .applied ↔ ∀ c ∈ cur, c.version < version := by
  cases cur with
  | none => simp [preflight]
  | some c =>
    simp only [preflight, Option.mem_def, Option.some.injEq, forall_eq']
    rcases lt_trichotomy version c.version with less | same | more
    · simp only [less, if_true]
      constructor
      · intro h
        cases h
      · omega
    · simp only [same, lt_irrefl, if_false, if_true, iff_false]
      split <;> simp
    · rw [if_neg (by omega), if_neg (by omega)]
      simp [more]

theorem WalIndex.apply_of_preflight {index : WalIndex} {factId version : Int} {op : Op}
    {value : Option Int} (h : preflight (index.get factId) op version value = .applied) :
    index.apply factId version op value =
      (.applied, ⟨index.state.set factId ⟨version, op, value⟩, index.conflicts⟩) := by
  have decision := applyVersioned_decision index.state factId version op value
  have state := applyVersioned_state index.state factId version op value
  have h' : preflight (index.state.get factId) op version value = .applied := h
  rw [h'] at decision state
  simp [WalIndex.apply, decision, state]

end ProofRay.Engine
