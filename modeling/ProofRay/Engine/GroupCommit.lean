/- The concurrent store of the group commit: clients that submit, wait and cancel, and the one
   worker (`horizon_batch.py`). -/

import ProofRay.Engine.BatchPublication
import ProofRay.Lib.Machine

namespace ProofRay.Engine.GroupCommit

open Lib (Machine)

inductive RequestState where
  | admitted
  | claimed
  | done
  deriving DecidableEq, Repr

/-- `_Request`; of its clock readings only whether `claimed_ns` has been set. -/
structure Request where
  cmd : CommitCommand
  size : Nat
  state : RequestState
  status : Option Status
  walSeq : Option Int
  cancelled : Bool
  claimed : Bool
  deriving DecidableEq, Repr

namespace Request

/-- `_finish`. -/
def finish (q : Request) (status : Status) (walSeq : Option Int) : Request :=
  { q with status := some status, walSeq := walSeq, state := .done }

def cancel (q : Request) : Request := { q with cancelled := true }

def claim (q : Request) : Request := { q with state := .claimed, claimed := true }

end Request

def frameEstimate (value : Option Int) : Nat := 76 + if value.isSome then 4 else 0

/-- The limits of the queue and of a batch; the window only decides when a batch is drained. -/
structure Limits where
  maxQueueCommands : Nat
  maxQueueBytes : Nat
  maxBatchCommands : Nat
  maxBatchBytes : Nat
  deriving DecidableEq, Repr

def Limits.default : Limits := ⟨1024, 2 ^ 20, 64, 2 ^ 18⟩

structure PublishedStoreState where
  snapshot : L0Snapshot
  cursor : Option PublishedCursor
  deriving DecidableEq

/-- Frames handed to the log: the requests of the batch, its plan, and how many bytes arrived. -/
structure WalWrite where
  batch : List Nat
  plan : BatchPlan
  arrived : Nat

/-- Where the worker stands. -/
inductive Phase where
  /-- at the head of `_run`, in a wait of the window included -/
  | idle
  | claimed (batch : List Nat) (snapshot : L0Snapshot) (hasher : Hasher)
  /-- planned from the snapshot of the drain; `before` is the identity of `published` -/
  | planned (batch : List Nat) (before : Nat) (snapshot : L0Snapshot)
      (published : PublishedStoreState) (plan : BatchPlan)
  | intended (batch : List Nat) (before : Nat) (plan : BatchPlan)
  | durable (batch : List Nat) (before : Nat) (plan : BatchPlan)
  | published (batch : List Nat) (before : Nat) (plan : BatchPlan) (cursor : PublishedCursor)
  | swapping (batch : List Nat) (plan : BatchPlan) (cursor : PublishedCursor)
  /-- the legacy path after its write, which `durable` tells to have been needed -/
  | settled (batch : List Nat) (plan : BatchPlan) (durable : Bool)
  | swapped (batch : List Nat) (plan : BatchPlan)
  | replying (rest : List Nat) (plan : BatchPlan)
  /-- the store is poisoned; what is still to be answered, and how -/
  | refusing (todo : List (Nat × Status))
  | ended

structure GroupStore where
  requests : Nat → Option Request
  queue : List Nat
  queueBytes : Nat
  ticket : Nat
  poisoned : Bool
  stop : Bool
  /-- the identity of `_published_state`: how often it has been replaced -/
  stateId : Nat
  published : PublishedStoreState
  hasher : Hasher
  writes : List WalWrite
  phase : Phase

/-- What a store is created with; without a context it takes the legacy path. -/
structure Config where
  crypto : Crypto
  key : Bytes
  scopeId : Int
  segmentId : Int
  base : BaseView
  u8Domain : Bool
  limits : Limits
  context : Option Keyring

namespace GroupStore

def boot (published : PublishedStoreState) (hasher : Hasher) : GroupStore where
  requests := fun _ => none
  queue := []
  queueBytes := 0
  ticket := 0
  poisoned := false
  stop := false
  stateId := 0
  published := published
  hasher := hasher
  writes := []
  phase := .idle

def setRequest (s : GroupStore) (r : Nat) (q : Request) : GroupStore :=
  { s with requests := Function.update s.requests r (some q) }

def finish (s : GroupStore) (r : Nat) (status : Status) (walSeq : Option Int) : GroupStore :=
  match s.requests r with
  | none => s
  | some q => s.setRequest r (q.finish status walSeq)

/-- The start of both poisonings: no admission any more, an empty queue, and the answers that are
owed to the claimed batch and to the requests nobody claimed. -/
def poison (s : GroupStore) (batch : List Nat) (status : Status) : GroupStore :=
  { s with
    poisoned := true, stop := true, queue := [], queueBytes := 0
    phase := .refusing (batch.map (·, status) ++ s.queue.map (·, .notAccepted)) }

end GroupStore

inductive Report where
  | quiet
  | admitted (request : Nat)
  /-- what `result` returned -/
  | told (request : Nat) (status : Option Status) (walSeq : Option Int)
  /-- what `cancel` returned -/
  | cancelled (request : Nat) (won : Bool)
  | captured (snapshot : L0Snapshot)
  | refused
  deriving DecidableEq

section

variable (cfg : Config) (s : GroupStore)

/-- `_instant`: a request that is over before it begins. No ticket of the queue is `0`. -/
def instant (r : Nat) (cmd : CommitCommand) (status : Status) : GroupStore :=
  s.setRequest r ⟨{ cmd with enqueueTicket := 0 }, frameEstimate cmd.value, .done, some status,
    none, false, false⟩

/-- `submit`; the ticket of the command is given here. -/
def submit (r : Nat) (cmd : CommitCommand) : Option (GroupStore × Report) :=
  let size := frameEstimate cmd.value
  if s.requests r ≠ none then none
  else if s.poisoned ∨ s.stop then some (instant s r cmd .notAccepted, .quiet)
  else if cfg.limits.maxBatchBytes < size then some (instant s r cmd .overloaded, .quiet)
  else if cfg.limits.maxQueueCommands ≤ s.queue.length ∨
      cfg.limits.maxQueueBytes < s.queueBytes + size then
    some (instant s r cmd .overloaded, .quiet)
  else
    let q : Request := ⟨{ cmd with enqueueTicket := s.ticket + 1 }, size, .admitted, none, none,
      false, false⟩
    some ({ s.setRequest r q with
      ticket := s.ticket + 1, queue := s.queue ++ [r], queueBytes := s.queueBytes + size },
      .admitted r)

/-- `_resolve`: the event is set, or the wait has timed out. -/
def resolve (r : Nat) (timedOut : Bool) : Option (GroupStore × Report) :=
  match s.requests r with
  | none => none
  | some q =>
    match q.state with
    | .done => some (s, .told r q.status q.walSeq)
    | .admitted =>
      if timedOut then some (s.setRequest r q.cancel, .told r (some .notAccepted) none) else none
    | .claimed => if timedOut then some (s, .told r (some .commitUnknown) none) else none

/-- `_cancel`. -/
def cancel (r : Nat) : Option (GroupStore × Report) :=
  match s.requests r with
  | none => none
  | some q =>
    if q.state = .admitted then some (s.setRequest r q.cancel, .cancelled r true)
    else some (s, .cancelled r false)

/-- The fence of a rotation or a compaction; `needed` unless a rotation finds nothing to do. -/
def fence (needed : Bool) : GroupStore × Report :=
  if s.poisoned then (s, .refused)
  else if needed then ({ s with stop := true }, .quiet)
  else (s, .refused)

/-- `adopt_published_cursor`, of a cursor that is sealed. -/
def adopt (cursor : PublishedCursor) : GroupStore × Report :=
  let head := s.published.snapshot.walHead
  let act := cursor.activeDescriptor
  if act.segmentId ≠ head.segmentId ∨ act.firstSeq ≠ head.firstSeq ∨
      cursor.proof.scopeId ≠ head.scopeId then
    (s, .refused)
  else
    ({ s with published := ⟨s.published.snapshot, some cursor⟩, stateId := s.stateId + 1 }, .quiet)

/-- `_drain_locked`. -/
def drainLocked (limits : Limits) : List Nat → GroupStore → List Nat → Nat → GroupStore × List Nat
  | [], s, batch, _ => (s, batch)
  | r :: rest, s, batch, bytes =>
    if limits.maxBatchCommands ≤ batch.length then (s, batch)
    else
      match s.requests r with
      | none => (s, batch)
      | some q =>
        let popped := { s with queue := rest, queueBytes := s.queueBytes - q.size }
        if q.cancelled then
          drainLocked limits rest (popped.setRequest r (q.finish .notAccepted none)) batch bytes
        else if batch ≠ [] ∧ limits.maxBatchBytes < bytes + q.size then (s, batch)
        else
          drainLocked limits rest (popped.setRequest r q.claim) (batch ++ [r]) (bytes + q.size)

def commandsOf (batch : List Nat) : List CommitCommand :=
  batch.filterMap fun r => (s.requests r).map Request.cmd

/-- The drain of `_run`; an empty batch goes back to the head of the loop. -/
def drain : Option (GroupStore × Report) :=
  match s.phase with
  | .idle =>
    if s.queue = [] then none
    else
      let (s', batch) := drainLocked cfg.limits s.queue s [] 0
      if batch = [] then some (s', .quiet)
      else some ({ s' with phase := .claimed batch s'.published.snapshot s'.hasher }, .quiet)
  | _ => none

/-- `prepare_batch` inside the commit; when it raises the worker is gone. -/
def plan : Option (GroupStore × Report) :=
  match s.phase with
  | .claimed batch snapshot hasher =>
    match prepareBatch cfg.crypto snapshot hasher (commandsOf s batch) cfg.key cfg.scopeId
        cfg.segmentId cfg.base cfg.u8Domain with
    | .error _ => some ({ s with phase := .ended }, .quiet)
    | .ok plan =>
      some ({ s with phase := .planned batch s.stateId snapshot s.published plan }, .quiet)
  | _ => none

/-- `_check_batch_preconditions`: the reason of a refusal. -/
def checkBatchPreconditions (published : PublishedStoreState) (snapshot : L0Snapshot)
    (plan : BatchPlan) : Option String :=
  match published.cursor with
  | none => some "writer publicado sem cursor"
  | some cursor =>
    let act := cursor.activeDescriptor
    let head := snapshot.walHead
    if snapshot.visibleThroughSeq ≠ cursor.readSeq then
      some "snapshot.visible_through != cursor.read_seq"
    else if head.segmentId ≠ act.segmentId ∨ head.firstSeq ≠ act.firstSeq ∨
        (head.byteLength : Int) ≠ act.durablePrefixLength ∨
        head.prefixDigest ≠ act.durablePrefixSha256 then
      some "snapshot.wal_head não casa o ACTIVE do cursor"
    else if plan.expectedFirstSeq ≠ cursor.readSeq + 1 then
      some "plan.expected_first_seq != cursor.read_seq + 1"
    else if plan.candidateSnapshot.walHead ≠ plan.candidateHead then
      some "candidate_snapshot.wal_head != candidate_head"
    else if (plan.candidateHead.byteLength : Int) ≠ act.durablePrefixLength + plan.byteCount then
      some "candidate_byte_length != source + plan.byte_count"
    else if (plan.receipts.filter (·.status = .applied)).map PlannedReceipt.walSeq ≠
        (List.range (plan.candidateHead.durableThroughSeq - cursor.readSeq).toNat).map
          (fun i => some (cursor.readSeq + 1 + i)) then
      some "seqs APPLIED não são contíguas e exatas no intervalo do intent"
    else none

def intend (failpoint : Bool) : Option (GroupStore × Report) :=
  match s.phase, cfg.context with
  | .planned batch before snapshot published plan, some keyring =>
    match checkBatchPreconditions published snapshot plan, published.cursor with
    | some _, _ => some (s.poison batch .notAccepted, .quiet)
    | none, none => none
    | none, some cursor =>
      match prepareBatchPublication cfg.crypto keyring cursor plan with
      | .error (.answer answer) =>
        if answer.state = .noPublicationRequired then
          some ({ s with phase := .replying batch plan }, .quiet)
        else some (s.poison batch .notAccepted, .quiet)
      | .error (.raised _) => some ({ s with phase := .ended }, .quiet)
      | .ok _ =>
        if failpoint then some (s.poison batch .notAccepted, .quiet)
        else some ({ s with phase := .intended batch before plan }, .quiet)
  | _, _ => none

/-- A reading of `time.monotonic_ns()`, which counts from a moment in the past. -/
structure Instant where
  ns : Nat
  later : 0 < ns

/-- How the physical part of a commit can go. `begun` is a write of which some bytes may have
arrived. -/
inductive WriteOutcome where
  /-- the size before the write is not the one of the intent -/
  | refused
  /-- an exception, before the first byte or after `arrived` bytes -/
  | raised (begun : Option Nat)
  /-- an exception that the legacy path does not catch -/
  | killed (begun : Option Nat)
  /-- the file is not what the intent says afterwards -/
  | diverged (arrived : Nat) (writeEnd : Instant)
  | durable

def logged (batch : List Nat) (plan : BatchPlan) : Option Nat → GroupStore
  | none => s
  | some arrived => { s with writes := s.writes ++ [⟨batch, plan, arrived⟩] }

def BatchPlan.size (plan : BatchPlan) : Nat := (plan.frames.map List.length).sum

/-- `commit_prepared_durable` and what the worker makes of it. -/
def writeDurable (outcome : WriteOutcome) : Option (GroupStore × Report) :=
  match s.phase with
  | .intended batch before plan =>
    if plan.frames = [] then some (s.poison batch .notAccepted, .quiet)
    else
      match outcome with
      | .refused => some (s.poison batch .notAccepted, .quiet)
      | .raised begun => some ((logged s batch plan begun).poison batch .commitUnknown, .quiet)
      | .killed _ => none
      | .diverged arrived writeEnd =>
        -- no proof; `write_end == 0` would say that nothing was written
        let status := if writeEnd.ns = 0 then Status.notAccepted else .commitUnknown
        some ((logged s batch plan (some arrived)).poison batch status, .quiet)
      | .durable =>
        some ({ logged s batch plan (some (BatchPlan.size plan)) with
          phase := .durable batch before plan }, .quiet)
  | _ => none

/-- `commit_prepared` and what the worker makes of it. -/
def writeLegacy (outcome : WriteOutcome) : Option (GroupStore × Report) :=
  match s.phase, cfg.context with
  | .planned batch _ _ _ plan, none =>
    match outcome with
    | .refused => none
    | .diverged _ _ => none
    | .raised begun => some ((logged s batch plan begun).poison batch .commitUnknown, .quiet)
    | .killed begun => some ({ logged s batch plan begun with phase := .ended }, .quiet)
    | .durable =>
      if plan.frames = [] then some ({ s with phase := .settled batch plan false }, .quiet)
      else
        some ({ logged s batch plan (some (BatchPlan.size plan)) with
          phase := .settled batch plan true }, .quiet)
  | _, _ => none

/-- `publish_batch`, its failures and the failpoint behind it taken together. -/
def publish (cursor : Option PublishedCursor) : Option (GroupStore × Report) :=
  match s.phase with
  | .durable batch before plan =>
    match cursor with
    | none => some (s.poison batch .commitUnknown, .quiet)
    | some cursor => some ({ s with phase := .published batch before plan cursor }, .quiet)
  | _ => none

def swap : Option (GroupStore × Report) :=
  match s.phase with
  | .published batch before plan cursor =>
    if s.stateId ≠ before then some (s.poison batch .commitUnknown, .quiet)
    else some ({ s with phase := .swapping batch plan cursor }, .quiet)
  | .swapping batch plan cursor =>
    some ({ s with
      published := ⟨plan.candidateSnapshot, some cursor⟩, hasher := plan.candidateHasher
      stateId := s.stateId + 1, phase := .swapped batch plan }, .quiet)
  | .settled batch plan durable =>
    if durable then
      some ({ s with
        published := ⟨plan.candidateSnapshot, s.published.cursor⟩, hasher := plan.candidateHasher
        stateId := s.stateId + 1, phase := .swapped batch plan }, .quiet)
    else some ({ s with phase := .swapped batch plan }, .quiet)
  | _ => none

def acknowledge (failpoint : Bool) : Option (GroupStore × Report) :=
  match s.phase with
  | .swapped batch plan =>
    if failpoint then some (s.poison batch .commitUnknown, .quiet)
    else some ({ s with phase := .replying batch plan }, .quiet)
  | _ => none

/-- `by_ticket[...]`: a later receipt of the ticket would win. -/
def receiptFor (plan : BatchPlan) (ticket : Nat) : Option PlannedReceipt :=
  plan.receipts.reverse.find? fun receipt => receipt.ticket = ticket

/-- One `_finish`: of a receipt, or of an answer that a poisoning owes. -/
def reply : Option (GroupStore × Report) :=
  match s.phase with
  | .replying [] _ => some ({ s with phase := .idle }, .quiet)
  | .replying (r :: rest) plan =>
    match s.requests r with
    | none => none
    | some q =>
      match receiptFor plan q.cmd.enqueueTicket with
      | none => some ({ s with phase := .ended }, .quiet)
      | some receipt =>
        some ({ s.finish r receipt.status receipt.walSeq with phase := .replying rest plan },
          .quiet)
  | .refusing [] => some ({ s with phase := .idle }, .quiet)
  | .refusing ((r, status) :: todo) =>
    some ({ s.finish r status none with phase := .refusing todo }, .quiet)
  | _ => none

/-- The end of the worker: `_run` returns on a stop with an empty queue, and an exception that
nothing catches ends it anywhere. -/
def halt (raised : Bool) : Option (GroupStore × Report) :=
  match s.phase with
  | .ended => none
  | .idle =>
    if raised ∨ s.stop ∧ s.queue = [] then some ({ s with phase := .ended }, .quiet) else none
  | _ => if raised then some ({ s with phase := .ended }, .quiet) else none

end

inductive Event where
  | submit (request : Nat) (cmd : CommitCommand)
  | result (request : Nat) (timedOut : Bool)
  | cancel (request : Nat)
  | capture
  | adopt (cursor : PublishedCursor)
  | fence (needed : Bool)
  | close
  | drain
  | plan
  | intend (failpoint : Bool)
  | writeDurable (outcome : WriteOutcome)
  | writeLegacy (outcome : WriteOutcome)
  | publish (cursor : Option PublishedCursor)
  | swap
  | acknowledge (failpoint : Bool)
  | reply
  | halt (raised : Bool)

def step (cfg : Config) (s : GroupStore) : Event → Option (GroupStore × Report)
  | .submit r cmd => submit cfg s r cmd
  | .result r timedOut => resolve s r timedOut
  | .cancel r => cancel s r
  | .capture => some (s, .captured s.published.snapshot)
  | .adopt cursor => some (adopt s cursor)
  | .fence needed => some (fence s needed)
  | .close => some ({ s with stop := true }, .quiet)
  | .drain => drain cfg s
  | .plan => plan cfg s
  | .intend failpoint => intend cfg s failpoint
  | .writeDurable outcome => writeDurable s outcome
  | .writeLegacy outcome => writeLegacy cfg s outcome
  | .publish cursor => publish s cursor
  | .swap => swap s
  | .acknowledge failpoint => acknowledge s failpoint
  | .reply => reply s
  | .halt raised => halt s raised

def machine (cfg : Config) : Machine GroupStore Event Report := ⟨step cfg⟩

end ProofRay.Engine.GroupCommit
