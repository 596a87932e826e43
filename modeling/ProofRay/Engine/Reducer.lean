/- The replay authority: the incremental reducer that recovery and
   `open_generation` feed segment by segment (`horizon_wal.py`). -/

import ProofRay.Engine.Wal

namespace ProofRay.Engine

open Lib.Guard

/-- A segment of a manifest: its place (`ordinal`), its persistent identity and the
prefix of the file it vouches for. -/
@[ext] structure WalSegmentDescriptor where
  ordinal : Int
  segmentId : Int
  firstSeq : Int
  recordCount : Int
  status : Int
  durablePrefixLength : Int
  durablePrefixSha256 : Bytes
  sealedObjectLength : Int
  sealedObjectSha256 : Bytes
  prevSegmentDigest : Bytes
  keyId : Int
  deriving Repr

instance : DecidableEq WalSegmentDescriptor := fun _ _ =>
  decidable_of_iff _ WalSegmentDescriptor.ext_iff.symm

/-- A token `Validated*`; only the log store stamps `stamped` (`WAL_SEGMENT_SEAL`). -/
structure ValidatedWalSegment where
  header : WalHeaderInfo
  frames : List Frame
  lastSeq : Int
  byteLength : Nat
  isSealed : Bool
  stamped : Bool
  deriving DecidableEq, Repr

inductive ReduceClass where
  | ok
  | conflict
  | txidConflict
  | coverage
  | limit
  | sealMissing
  | state
  deriving DecidableEq, Repr

def ReduceClass.text : ReduceClass → String
  | .ok => "OK"
  | .conflict => "CONFLICT"
  | .txidConflict => "TXID_CONFLICT"
  | .coverage => "COVERAGE"
  | .limit => "LIMIT"
  | .sealMissing => "SEAL"
  | .state => "STATE"

structure ReducerLimits where
  maxSegments : Int
  maxTotalFrames : Int
  maxTotalWalBytes : Int
  maxFramesPerSegment : Int
  maxSegmentBytes : Int
  deriving DecidableEq, Repr

def unboundedReducerLimits : ReducerLimits :=
  ⟨1 <<< 62, 1 <<< 62, 1 <<< 62, 1 <<< 62, 1 <<< 62⟩

structure ReducerStepResult where
  ok : Bool
  classification : ReduceClass
  reason : String
  deriving DecidableEq, Repr

structure ReplayResult where
  classification : ReduceClass
  index : WalIndex
  txindex : TxIdIndex
  appliedCount : Nat
  appliedSeq : Int
  deriving DecidableEq

abbrev Builders := WalIndex × TxIdIndex

/-- The state of the machine.  `builders` is `none` once they are discarded. -/
structure ReducerState where
  base : BaseView
  builders : Option Builders
  targetSeq : Int
  expectedNext : Int
  applied : Nat
  lastApplied : Int
  limits : ReducerLimits
  segCount : Nat
  prevSegmentId : Int
  totalFrames : Nat
  totalBytes : Nat
  terminal : Bool
  classification : ReduceClass
  reason : String
  finished : Bool
  legacy : Bool

namespace ReducerState

def start (base : BaseView) (initialSeq targetSeq : Int) (limits : ReducerLimits) :
    ReducerState where
  base := base
  builders := some (WalIndex.init, TxIdIndex.init)
  targetSeq := targetSeq
  expectedNext := initialSeq + 1
  applied := 0
  lastApplied := initialSeq
  limits := limits
  segCount := 0
  prevSegmentId := -1
  totalFrames := 0
  totalBytes := 0
  terminal := false
  classification := .ok
  reason := ""
  finished := false
  legacy := false

/-- `_to_terminal`: the builders are gone after a failure. -/
def toTerminal (s : ReducerState) (classification : ReduceClass) (reason : String) :
    ReducerState × ReducerStepResult :=
  ({ s with terminal := true, classification := classification, reason := reason,
            builders := none },
    ⟨false, classification, reason⟩)

/-- The decision of `_apply_one` on the indexes, once the digest is known. -/
def applyDigested (base : BaseView) (b : Builders) (f : Frame) (digest : Bytes) :
    Except (ReduceClass × String) Builders :=
  if b.2.check f.operationId digest ≠ .new then .error (.txidConflict, "operation_id repetido")
  else if base.dedupProbe f.operationId digest ≠ .new then
    .error (.txidConflict, "operation_id já retido na base (colisão base×WAL)")
  else
    match currentVersion b.1 base f.factId with
    | none => .error (.conflict, "base ilegível")
    | some cur =>
      if preflight cur f.op f.factVersion f.value ≠ .applied then
        .error (.conflict, "stale/idempotente/conflito")
      else
        .ok ((b.1.apply f.factId f.factVersion f.op f.value).2,
          b.2.record f.operationId digest f.seq)

def applyFrame (c : Crypto) (base : BaseView) (b : Builders) (f : Frame) :
    Except PyError (Except (ReduceClass × String) Builders) := do
  let digest ← contentDigest c f.op f.factId f.factVersion f.value
  return applyDigested base b f digest

/-- `_apply_one`: touching discarded builders raises. -/
def applyOne (c : Crypto) (s : ReducerState) (f : Frame) :
    Except PyError (ReducerState × Option (ReduceClass × String)) :=
  match s.builders with
  | none => .error .attributeError
  | some b => do
    match ← applyFrame c s.base b f with
    | .error e => return (s, some e)
    | .ok b' =>
      return ({ s with builders := some b', applied := s.applied + 1, lastApplied := f.seq }, none)

/-- The checks of `feed_segment` before its loop: the first that fails. -/
def segmentFault (s : ReducerState) (segment : ValidatedWalSegment)
    (descriptor : WalSegmentDescriptor) : Option (ReduceClass × String) :=
  if ¬ segment.stamped then some (.sealMissing, "token não selado pelo WalStore")
  else if descriptor.ordinal ≠ s.segCount then some (.coverage, "ordinal fora de ordem")
  else if descriptor.segmentId ≤ s.prevSegmentId then
    some (.coverage, "segment_id não-monotônico")
  else if descriptor.firstSeq ≠ s.expectedNext then
    some (.coverage, "first_seq != expected (gap/overlap/regressão)")
  else if (segment.frames.length : Int) ≠ descriptor.recordCount then
    some (.coverage, "record_count divergente")
  else if (s.segCount : Int) + 1 > s.limits.maxSegments then some (.limit, "max_segments")
  else if (segment.frames.length : Int) > s.limits.maxFramesPerSegment then
    some (.limit, "max_frames_per_segment")
  else if (segment.byteLength : Int) > s.limits.maxSegmentBytes then
    some (.limit, "max_segment_bytes")
  else if (s.totalFrames : Int) + segment.frames.length > s.limits.maxTotalFrames then
    some (.limit, "max_total_frames")
  else if (s.totalBytes : Int) + segment.byteLength > s.limits.maxTotalWalBytes then
    some (.limit, "max_total_wal_bytes")
  else none

/-- The loop of `feed_segment`. -/
def feedFrames (c : Crypto) : List Frame → ReducerState →
    Except PyError (ReducerState × Option (ReduceClass × String))
  | [], s => .ok (s, none)
  | f :: fs, s =>
    if f.seq ≠ s.expectedNext then .ok (s, some (.coverage, "seq fora de ordem"))
    else if f.seq > s.targetSeq then .ok (s, some (.coverage, "frame excede target_seq"))
    else do
      match ← applyOne c s f with
      | (s', some e) => return (s', some e)
      | (s', none) => feedFrames c fs { s' with expectedNext := s'.expectedNext + 1 }

def feedSegment (c : Crypto) (s : ReducerState) (segment : ValidatedWalSegment)
    (descriptor : WalSegmentDescriptor) : Except PyError (ReducerState × ReducerStepResult) :=
  if s.terminal then .ok (s, ⟨false, s.classification, s.reason⟩)
  else if s.finished then .ok (s.toTerminal .state "feed após finish")
  else
    match s.segmentFault segment descriptor with
    | some (classification, reason) => .ok (s.toTerminal classification reason)
    | none => do
      match ← feedFrames c segment.frames s with
      | (s', some (classification, reason)) => return s'.toTerminal classification reason
      | (s', none) =>
        return ({ s' with segCount := s'.segCount + 1, prevSegmentId := descriptor.segmentId,
                          totalFrames := s'.totalFrames + segment.frames.length,
                          totalBytes := s'.totalBytes + segment.byteLength },
          ⟨true, .ok, "ok"⟩)

/-- The loop of `feed_legacy_frames`: no coverage checks, stops after `upto_seq`. -/
def feedLegacyLoop (c : Crypto) (uptoSeq : Option Int) : List Frame → ReducerState →
    Except PyError (ReducerState × Option (ReduceClass × String))
  | [], s => .ok (s, none)
  | f :: fs, s =>
    if uptoSeq.any (fun upto => f.seq > upto) then .ok (s, none)
    else do
      match ← applyOne c s f with
      | (s', some e) => return (s', some e)
      | (s', none) => feedLegacyLoop c uptoSeq fs s'

def feedLegacyFrames (c : Crypto) (s : ReducerState) (frames : List Frame)
    (uptoSeq : Option Int) : Except PyError (ReducerState × ReducerStepResult) :=
  if s.terminal then .ok (s, ⟨false, s.classification, s.reason⟩)
  else do
    match ← feedLegacyLoop c uptoSeq frames { s with legacy := true } with
    | (s', some (classification, reason)) => return s'.toTerminal classification reason
    | (s', none) => return (s', ⟨true, .ok, "ok"⟩)

def emptyReplay (classification : ReduceClass) : ReplayResult :=
  ⟨classification, WalIndex.init, TxIdIndex.init, 0, 0⟩

def finish (s : ReducerState) : ReducerState × ReplayResult :=
  if s.terminal then (s, emptyReplay s.classification)
  else if s.finished then ((s.toTerminal .state "finish duplicado").1, emptyReplay .state)
  else if ¬ s.legacy ∧ s.expectedNext ≠ s.targetSeq + 1 then
    ((s.toTerminal .coverage "cobertura incompleta").1, emptyReplay .coverage)
  else
    match s.builders with
    | none => (s, emptyReplay .state)
    | some (index, txindex) =>
      ({ s with finished := true, builders := none },
        ⟨.ok, index, txindex, s.applied, s.lastApplied⟩)

end ReducerState

/-- `reduce_frames`: flat frames through the same machine. -/
def reduceFrames (c : Crypto) (frames : List Frame) (uptoSeq : Option Int) (base : BaseView)
    (initialSeq : Int) : Except PyError ReplayResult := do
  let reducer := ReducerState.start base initialSeq (1 <<< 62) unboundedReducerLimits
  let (reducer, _) ← reducer.feedLegacyFrames c frames uptoSeq
  return reducer.finish.2

end ProofRay.Engine
