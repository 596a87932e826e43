/- Group commit: the planning of a batch against a snapshot and the base
   (`horizon_batch.py`, `prepare_batch`). -/

import ProofRay.Engine.Wal

namespace ProofRay.Engine

open Lib.Guard

/-- The receipts a client can be given. -/
inductive Status where
  | applied
  | idempotent
  | staleRejected
  | versionConflict
  | dedupReplay
  | txidConflict
  | idempotencyExpired
  | poisoned
  | invalidArgument
  | notAccepted
  | commitUnknown
  | overloaded
  | abstainBase
  deriving DecidableEq, Repr

structure WalHead where
  scopeId : Int
  segmentId : Int
  firstSeq : Int
  durableThroughSeq : Int
  byteLength : Nat
  prefixDigest : Bytes
  state : Int
  deriving DecidableEq, Repr

structure L0Snapshot where
  index : WalIndex
  txindex : TxIdIndex
  visibleThroughSeq : Int
  walHead : WalHead
  deriving DecidableEq

/-- The operation word of a command: ingress receives any text. -/
inductive OpWord where
  | known (op : Op)
  | other (text : String)
  deriving DecidableEq, Repr

structure CommitCommand where
  operationId : Bytes
  op : OpWord
  factId : Int
  factVersion : Int
  value : Option Int
  enqueueTicket : Nat
  deriving DecidableEq, Repr

structure PlannedReceipt where
  ticket : Nat
  status : Status
  walSeq : Option Int
  deriving DecidableEq, Repr

/-- A running SHA-256 is the bytes it was fed. -/
structure Hasher where
  fed : Bytes
  deriving DecidableEq, Repr

def Hasher.update (h : Hasher) (b : Bytes) : Hasher := ⟨h.fed ++ b⟩

def Hasher.digest (c : Crypto) (h : Hasher) : Bytes := c.sha256 h.fed

structure BatchPlan where
  expectedFirstSeq : Int
  frames : List Bytes
  receipts : List PlannedReceipt
  candidateSnapshot : L0Snapshot
  candidateHead : WalHead
  byteCount : Nat
  candidateHasher : Hasher
  deriving DecidableEq

def maxU8Value : Int := 255

def isU8Value (value : Option Int) : Bool := value.any fun v => 0 ≤ v ∧ v ≤ maxU8Value

def commandIsCanonical (op : Op) (factId factVersion : Int) (value : Option Int)
    (operationId : Bytes) : Bool :=
  operationId.length = 16 ∧ 1 ≤ factVersion ∧ 0 ≤ factId ∧ factId < maxFactId ∧
    (op = .put → value.any fun v => 0 ≤ v ∧ v ≤ 4294967295) ∧ (op = .delete → value = none)

/-- The planner's loop variables. -/
structure PlanState where
  index : WalIndex
  txindex : TxIdIndex
  hasher : Hasher
  byteLen : Nat
  frames : List Bytes
  receipts : List PlannedReceipt
  seq : Int

/-- What the preflight of one command decides. -/
inductive Verdict where
  | answer (status : Status) (walSeq : Option Int)
  | write (op : Op) (digest : Bytes)

def commandVerdict (base : BaseView) (index : WalIndex) (txindex : TxIdIndex) (op : Op)
    (cmd : CommitCommand) (digest : Bytes) : Verdict :=
  match classifyDedup (txindex.check cmd.operationId digest) txindex.getSeq base cmd.operationId
      digest with
  | .dedupReplay seq => .answer .dedupReplay seq
  | .txidConflict => .answer .txidConflict none
  | .idempotencyExpired => .answer .idempotencyExpired none
  | .abstainBase => .answer .abstainBase none
  | .new =>
    match currentVersion index base cmd.factId with
    | none => .answer .abstainBase none
    | some cur =>
      match preflight cur op cmd.factVersion cmd.value with
      | .stale => .answer .staleRejected none
      | .idempotent => .answer .idempotent none
      | .conflict => .answer .versionConflict none
      | .applied => .write op digest

def classifyCommand (c : Crypto) (base : BaseView) (u8Domain : Bool) (index : WalIndex)
    (txindex : TxIdIndex) (cmd : CommitCommand) : Except PyError Verdict :=
  match cmd.op with
  | .other _ => .ok (.answer .invalidArgument none)
  | .known op =>
    if ¬ commandIsCanonical op cmd.factId cmd.factVersion cmd.value cmd.operationId then
      .ok (.answer .invalidArgument none)
    else if u8Domain ∧ op = .put ∧ ¬ isU8Value cmd.value then
      .ok (.answer .invalidArgument none)
    else do
      let digest ← contentDigest c op cmd.factId cmd.factVersion cmd.value
      return commandVerdict base index txindex op cmd digest

/-- One turn of the loop of `prepare_batch`. -/
def planCommand (c : Crypto) (key : Bytes) (scopeId segmentId : Int) (base : BaseView)
    (u8Domain : Bool) (st : PlanState) (cmd : CommitCommand) : Except PyError PlanState := do
  match ← classifyCommand c base u8Domain st.index st.txindex cmd with
  | .answer status walSeq =>
    return { st with receipts := st.receipts ++ [⟨cmd.enqueueTicket, status, walSeq⟩] }
  | .write op digest =>
    let payload ← valuePayload cmd.value
    let frame ← encodeFrame c key scopeId segmentId op st.seq cmd.operationId cmd.factId
      cmd.factVersion payload
    return { index := (st.index.apply cmd.factId cmd.factVersion op cmd.value).2
             txindex := st.txindex.record cmd.operationId digest st.seq
             hasher := st.hasher.update frame
             byteLen := st.byteLen + frame.length
             frames := st.frames ++ [frame]
             receipts := st.receipts ++ [⟨cmd.enqueueTicket, .applied, some st.seq⟩]
             seq := st.seq + 1 }

def planCommands (c : Crypto) (key : Bytes) (scopeId segmentId : Int) (base : BaseView)
    (u8Domain : Bool) : List CommitCommand → PlanState → Except PyError PlanState
  | [], st => .ok st
  | cmd :: cmds, st => do
    let st ← planCommand c key scopeId segmentId base u8Domain st cmd
    planCommands c key scopeId segmentId base u8Domain cmds st

def PlanState.start (snapshot : L0Snapshot) (hasher : Hasher) : PlanState where
  index := snapshot.index
  txindex := snapshot.txindex
  hasher := hasher
  byteLen := snapshot.walHead.byteLength
  frames := []
  receipts := []
  seq := snapshot.walHead.durableThroughSeq + 1

def PlanState.plan (c : Crypto) (snapshot : L0Snapshot) (scopeId segmentId : Int)
    (st : PlanState) : BatchPlan :=
  let head : WalHead :=
    ⟨scopeId, segmentId, snapshot.walHead.firstSeq, st.seq - 1, st.byteLen, st.hasher.digest c,
      stateActive⟩
  { expectedFirstSeq := snapshot.walHead.durableThroughSeq + 1
    frames := st.frames
    receipts := st.receipts
    candidateSnapshot := ⟨st.index, st.txindex, st.seq - 1, head⟩
    candidateHead := head
    byteCount := (st.frames.map List.length).sum
    candidateHasher := st.hasher }

def prepareBatch (c : Crypto) (snapshot : L0Snapshot) (hasher : Hasher)
    (commands : List CommitCommand) (key : Bytes) (scopeId segmentId : Int) (base : BaseView)
    (u8Domain : Bool) : Except PyError BatchPlan := do
  let st ← planCommands c key scopeId segmentId base u8Domain commands (.start snapshot hasher)
  return st.plan c snapshot scopeId segmentId

end ProofRay.Engine
