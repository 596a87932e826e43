/- The single writer of a log segment: creation, appends, the seal, and the two ways back
   from its file, recovery and resumption (`horizon_wal.py`). -/

import ProofRay.Engine.Batch
import ProofRay.Engine.Reducer

namespace ProofRay.Engine

open Lib.Guard

structure AppendResult where
  status : Status
  walSeq : Option Int
  deriving DecidableEq, Repr

/-- The arguments of `append`. -/
structure AppendCall where
  op : OpWord
  factId : Int
  factVersion : Int
  value : Option Int
  operationId : Bytes
  deriving DecidableEq, Repr

/-- A writer and the file under it; the descriptor stands at the end of the file.  The disk
stores what it is given: a write that stops half way is a file cut there. -/
@[ext] structure WalWriter where
  key : Bytes
  scopeId : Int
  segmentId : Int
  firstSeq : Int
  keyId : Int
  previousSegmentDigest : Bytes
  nextSeq : Int
  index : WalIndex
  txindex : TxIdIndex
  isSealed : Bool
  file : Bytes
  deriving DecidableEq

namespace WalWriter

def createNew (c : Crypto) (key : Bytes) (scopeId segmentId firstSeq keyId : Int)
    (previousSegmentDigest : Bytes) : Except PyError WalWriter := do
  let header ← encodeSegmentHeader c key scopeId segmentId firstSeq keyId stateActive
    previousSegmentDigest
  return { key := key, scopeId := scopeId, segmentId := segmentId, firstSeq := firstSeq
           keyId := keyId, previousSegmentDigest := previousSegmentDigest, nextSeq := firstSeq
           index := WalIndex.init, txindex := TxIdIndex.init, isSealed := false, file := header }

def appendVerdict (w : WalWriter) (op : Op) (call : AppendCall) (digest : Bytes) :
    Option AppendResult :=
  match w.txindex.check call.operationId digest with
  | .dedupReplay => some ⟨.dedupReplay, w.txindex.getSeq call.operationId⟩
  | .txidConflict => some ⟨.txidConflict, none⟩
  | .new =>
    match preflight (w.index.get call.factId) op call.factVersion call.value with
    | .stale => some ⟨.staleRejected, none⟩
    | .idempotent => some ⟨.idempotent, none⟩
    | .conflict => some ⟨.versionConflict, none⟩
    | .applied => none

def append (c : Crypto) (w : WalWriter) (call : AppendCall) :
    Except PyError (WalWriter × AppendResult) :=
  match call.op with
  | .other _ => .ok (w, ⟨.invalidArgument, none⟩)
  | .known op =>
    if ¬ commandIsCanonical op call.factId call.factVersion call.value call.operationId then
      .ok (w, ⟨.invalidArgument, none⟩)
    else if w.isSealed then .error (.walError "segmento selado; não aceita novas escritas")
    else do
      let digest ← contentDigest c op call.factId call.factVersion call.value
      match w.appendVerdict op call digest with
      | some answer => return (w, answer)
      | none =>
        let payload ← valuePayload call.value
        let frame ← encodeFrame c w.key w.scopeId w.segmentId op w.nextSeq call.operationId
          call.factId call.factVersion payload
        return ({ w with file := w.file ++ frame
                         index := (w.index.apply call.factId call.factVersion op call.value).2
                         txindex := w.txindex.record call.operationId digest w.nextSeq
                         nextSeq := w.nextSeq + 1 }, ⟨.applied, some w.nextSeq⟩)

/-- `seal`: a footer that covers every byte before it. -/
def sealSegment (c : Crypto) (w : WalWriter) : Except PyError WalWriter := do
  let digest := (c.sha256 w.file).take 16
  let footer ← sealFooter c w.key w.scopeId w.segmentId (w.nextSeq - 1) w.file.length digest
  return { w with file := w.file ++ footer, isSealed := true }

def after (c : Crypto) (w : WalWriter) (call : AppendCall) : WalWriter :=
  match w.append c call with
  | .ok (w', _) => w'
  | .error _ => w

def appendAll (c : Crypto) : WalWriter → List AppendCall → WalWriter
  | w, [] => w
  | w, call :: calls => appendAll c (w.after c call) calls

end WalWriter

/-- A recovery answers with the class of the scan or with that of the reducer. -/
inductive RecoveryClass where
  | scanned (classification : ScanClass)
  | reduced (classification : ReduceClass)
  deriving DecidableEq, Repr

structure RecoveryResult where
  classification : RecoveryClass
  index : WalIndex
  txindex : TxIdIndex
  appliedCount : Nat
  appliedSeq : Int
  droppedTailBytes : Nat
  deriving DecidableEq

/-- The physical scan of the whole range, then the replay up to a sequence.  A partial index
is never handed out. -/
def recover (c : Crypto) (blob : Option Bytes) (key : Bytes) (required : Bool)
    (scopeId segmentId : Int) (uptoSeq : Option Int) (expectedSeal : Option SegmentSeal) :
    Except PyError RecoveryResult :=
  let sr := scan c key required scopeId segmentId expectedSeal blob
  if sr.classification ≠ .clean ∧ sr.classification ≠ .tailDropped then
    .ok ⟨.scanned sr.classification, WalIndex.init, TxIdIndex.init, 0, 0, sr.droppedTailBytes⟩
  else do
    let rr ← reduceFrames c sr.frames uptoSeq emptyBaseView 0
    if rr.classification ≠ .ok then
      return ⟨.reduced rr.classification, WalIndex.init, TxIdIndex.init, 0, 0, 0⟩
    else
      return ⟨.scanned sr.classification, rr.index, rr.txindex, rr.appliedCount, rr.appliedSeq,
        sr.droppedTailBytes⟩

/-- `resume_existing`: the identity comes from the authenticated header, the indexes from the
reducer recovery uses, and a torn tail is cut off the file. -/
def resumeExisting (c : Crypto) (file : Bytes) (key : Bytes) (scopeId segmentId : Int)
    (expectedKeyId : Option Int) (expectedPreviousSegmentDigest : Option Bytes) :
    Except PyError WalWriter := do
  let sr := scan c key true scopeId segmentId none (some file)
  require (sr.isSealed = false) (.walError "segmento SEALED não pode ser retomado")
  require (sr.classification = .clean ∨ sr.classification = .tailDropped)
    (.walError s!"não é possível retomar: {sr.classification.text}")
  let h ← orThrow sr.header (.walError "header não autenticado ao retomar")
  require (∀ keyId ∈ expectedKeyId, h.keyId = keyId)
    (.walError "key_id do header diverge do esperado")
  require (∀ digest ∈ expectedPreviousSegmentDigest, h.previousSegmentDigest = digest)
    (.walError "previous_segment_digest do header diverge do esperado")
  let rr ← reduceFrames c sr.frames none emptyBaseView 0
  require (rr.classification = .ok)
    (.walError s!"história não canônica ao retomar: {rr.classification.text}")
  let kept := if sr.classification = .tailDropped then file.take sr.consumedBytes else file
  return { key := key, scopeId := scopeId, segmentId := segmentId, firstSeq := h.firstSeq
           keyId := h.keyId, previousSegmentDigest := h.previousSegmentDigest
           nextSeq := sr.lastSeq + 1, index := rr.index, txindex := rr.txindex
           isSealed := false, file := kept }

end ProofRay.Engine
