/- The publication of a batch: its intent, the proof that the bytes are durable, and the fast path
   (`horizon_publication.py`, the tokens also in `horizon_batch.py`). -/

import ProofRay.Engine.Batch
import ProofRay.Engine.Publication

namespace ProofRay.Engine

open Lib.Guard
open Lib.Struct (Field)

inductive AdvanceState where
  | invalid
  | resourceLimit
  deriving DecidableEq, Repr

/-- How the derivation ends without a manifest; `serialize` may raise. -/
inductive AdvanceStop where
  | refused (state : AdvanceState) (reason : String)
  | raised (e : PyError)
  deriving DecidableEq, Repr

structure AdvanceResult where
  manifestBlob : Bytes
  manifest : EpochManifest
  candidateReadSeq : Int
  deriving DecidableEq

/-- `advance_batch_manifest`. -/
def advanceBatchManifest (c : Crypto) (keyring : Keyring) (cursor : PublishedCursor)
    (candidateHead : WalHead) (appliedCount : Int) : Except AdvanceStop AdvanceResult := do
  require (0 < appliedCount) (.refused .invalid "applied_count deve ser > 0")
  let man := cursor.manifest
  let oldActive := cursor.activeDescriptor
  let candidateR := candidateHead.durableThroughSeq
  require (candidateR = cursor.readSeq + appliedCount) (.refused .invalid "ΔR != applied_count")
  require (candidateHead.scopeId = man.scopeId) (.refused .invalid "scope do head != manifesto")
  require (candidateHead.segmentId = oldActive.segmentId ∧
    candidateHead.firstSeq = oldActive.firstSeq) (.refused .invalid "head não casa o ACTIVE")
  require (oldActive.durablePrefixLength ≤ candidateHead.byteLength)
    (.refused .invalid "prefixo durável diminuiu")
  require (candidateHead.prefixDigest.length = 32) (.refused .invalid "prefix_digest != 32 bytes")
  let newRecordCount := oldActive.recordCount + appliedCount
  require (newRecordCount = candidateR - oldActive.firstSeq + 1)
    (.refused .invalid "record_count anterior + aplicados != R - first_seq + 1")
  require (candidateR < maxSeq) (.refused .resourceLimit "overflow de seq")
  let key ← orThrow (keyring.get man.keyId) (.refused .invalid "key_id do cursor desconhecido")
  let newMan := advancedManifest man oldActive candidateR newRecordCount
    candidateHead.byteLength candidateHead.prefixDigest
  let blob ← (newMan.serialize c key).mapError .raised
  return ⟨blob, newMan, candidateR⟩

@[ext] structure BatchPublicationIntent where
  sourcePublicationSha256 : Bytes
  sourceRevision : Int
  sourceReadSeq : Int
  scopeId : Int
  segmentId : Int
  firstSeq : Int
  sourceByteLength : Int
  sourcePrefixSha256 : Bytes
  appliedCount : Int
  frameCount : Int
  candidateReadSeq : Int
  candidateByteLength : Int
  candidatePrefixSha256 : Bytes
  candidateManifestBlob : Bytes
  candidateManifestSha256 : Bytes
  keyId : Int
  deriving Repr

instance : DecidableEq BatchPublicationIntent := fun _ _ =>
  decidable_of_iff _ BatchPublicationIntent.ext_iff.symm

/-- `<QIIIQ32sQ32sQQ32s`: the source and the new prefix. -/
abbrev intentSourceFormat : List Field :=
  [.u64, .u32, .u32, .u32, .u64, .bytes 32, .u64, .bytes 32, .u64, .u64, .bytes 32]

/-- `<QQQ32s`: the candidate. -/
abbrev intentCandidateFormat : List Field := [.u64, .u64, .u64, .bytes 32]

/-- `intent_canonical_digest`. -/
def intentCanonicalDigest (c : Crypto) (intent : BatchPublicationIntent) :
    Except PyError Bytes := do
  let source ← structPack intentSourceFormat
    (intent.sourceRevision, intent.scopeId, intent.segmentId, intent.keyId, intent.sourceReadSeq,
      intent.sourcePublicationSha256, intent.firstSeq, intent.sourcePrefixSha256,
      intent.sourceByteLength, intent.appliedCount, intent.candidatePrefixSha256, ())
  let candidate ← structPack intentCandidateFormat
    (intent.frameCount, intent.candidateReadSeq, intent.candidateByteLength,
      intent.candidateManifestSha256, ())
  return c.sha256 (ascii "HORIZON-BATCH-INTENT-v1" ++ (source ++ candidate))

/-- The receipts of a plan that are `APPLIED`. -/
def BatchPlan.appliedCount (plan : BatchPlan) : Nat :=
  plan.receipts.countP fun rc => rc.status = .applied

def AdvanceStop.toPublish : AdvanceStop → PublishStop
  | .refused .resourceLimit reason => refuse .resourceLimit ("advance: " ++ reason)
  | .refused .invalid reason => refuse .invalidIntent ("advance: " ++ reason)
  | .raised e => .raised e

/-- `prepare_batch_publication`. -/
def prepareBatchPublication (c : Crypto) (keyring : Keyring) (cursor : PublishedCursor)
    (plan : BatchPlan) : Except PublishStop BatchPublicationIntent := do
  require (plan.appliedCount ≠ 0) (refuse .noPublicationRequired "batch sem APPLIED")
  require (plan.appliedCount = plan.frames.length)
    (refuse .invalidIntent "applied_count != número de frames")
  let adv ← (advanceBatchManifest c keyring cursor plan.candidateHead
    plan.appliedCount).mapError AdvanceStop.toPublish
  let act := cursor.activeDescriptor
  return {
    sourcePublicationSha256 := cursor.proof.publicationSha256
    sourceRevision := cursor.revision
    sourceReadSeq := cursor.readSeq
    scopeId := cursor.manifest.scopeId
    segmentId := act.segmentId
    firstSeq := act.firstSeq
    sourceByteLength := act.durablePrefixLength
    sourcePrefixSha256 := act.durablePrefixSha256
    appliedCount := plan.appliedCount
    frameCount := plan.frames.length
    candidateReadSeq := adv.candidateReadSeq
    candidateByteLength := plan.candidateHead.byteLength
    candidatePrefixSha256 := plan.candidateHead.prefixDigest
    candidateManifestBlob := adv.manifestBlob
    candidateManifestSha256 := c.sha256 adv.manifestBlob
    keyId := cursor.manifest.keyId }

structure DurableBatchProof where
  stDev : Int
  stIno : Int
  scopeId : Int
  segmentId : Int
  intervalLo : Int
  candidateReadSeq : Int
  byteLength : Int
  prefixSha256 : Bytes
  intentDigest : Bytes
  deriving DecidableEq, Repr

/-- What `os.stat` says of a file. -/
structure FileStat where
  stDev : Int
  stIno : Int
  stSize : Int
  deriving DecidableEq, Repr

/-- The arguments of one call of `publish_batch`; `stat` is the file system's view of the
active segments. -/
structure BatchCall where
  storeScope : Option Int
  walStore : WalStore
  stat : WalIdentity → Option FileStat
  cursor : PublishedCursor
  intent : BatchPublicationIntent
  durableProof : DurableBatchProof
  authority : Option Lease
  limits : PublicationLimits
  crash : Option Failpoint

abbrev IntentOfCursor (intent : BatchPublicationIntent) (cursor : PublishedCursor) : Prop :=
  intent.sourcePublicationSha256 = cursor.proof.publicationSha256 ∧
    intent.sourceRevision = cursor.revision ∧ intent.sourceReadSeq = cursor.readSeq ∧
    intent.scopeId = cursor.manifest.scopeId ∧
    intent.segmentId = cursor.activeDescriptor.segmentId ∧
    intent.firstSeq = cursor.activeDescriptor.firstSeq ∧
    intent.sourceByteLength = cursor.activeDescriptor.durablePrefixLength ∧
    intent.sourcePrefixSha256 = cursor.activeDescriptor.durablePrefixSha256

abbrev DurabilityOfIntent (proof : DurableBatchProof) (intent : BatchPublicationIntent)
    (intentDigest : Bytes) : Prop :=
  proof.intentDigest = intentDigest ∧ proof.byteLength = intent.candidateByteLength ∧
    proof.prefixSha256 = intent.candidatePrefixSha256 ∧
    proof.candidateReadSeq = intent.candidateReadSeq ∧
    proof.intervalLo = intent.sourceReadSeq + 1 ∧ proof.scopeId = intent.scopeId ∧
    proof.segmentId = intent.segmentId

/-- The checks of `publish_batch` before the compare-and-swap. -/
def checkBatchTokens (c : Crypto) (call : BatchCall) : Except PublishStop Unit := do
  let authority := checkAuthority call.authority .batch call.storeScope
  require (authority = none) (refuse .invalidAuthority (authority.getD ""))
  require (IntentOfCursor call.intent call.cursor)
    (refuse .invalidIntent "intent não casa o cursor")
  require (call.intent.candidateReadSeq = call.intent.sourceReadSeq + call.intent.appliedCount)
    (refuse .invalidIntent "intervalo [R+1, candidate_R] incoerente")
  let intentDigest ← (intentCanonicalDigest c call.intent).mapError .raised
  require (DurabilityOfIntent call.durableProof call.intent intentDigest)
    (refuse .invalidDurability "prova durável não casa o intent")
  let st ← orThrow (call.stat ⟨call.intent.scopeId, call.intent.segmentId⟩)
    (refuse .invalidDurability "ACTIVE físico ausente")
  require (st.stDev = call.durableProof.stDev ∧ st.stIno = call.durableProof.stIno ∧
    call.durableProof.byteLength ≤ st.stSize)
    (refuse .invalidDurability "prova durável de outro arquivo/segmento")

/-- The fast path: purpose `BATCH`, no full open of the candidate. -/
def BatchCall.publishCall (call : BatchCall) : PublishCall where
  storeScope := call.storeScope
  walStore := call.walStore
  candidateManifestBlob := call.intent.candidateManifestBlob
  expectedCurrentDigest := call.cursor.proof.publicationSha256
  keyId := call.intent.keyId
  limits := call.limits
  authority := call.authority
  purpose := some .batch
  requirePhysicalOpen := false
  crash := call.crash

/-- What the caller of `publish_batch` sees. -/
inductive BatchOutcome where
  | answered (state : PublishState) (cursor : Option PublishedCursor) (reason : String)
  | raised (e : PyError)
  | crashed
  deriving DecidableEq

def reopenCursor (c : Crypto) (keyring : Keyring) (disk : PublicationDisk) (call : BatchCall)
    (r : PublishResult) : BatchOutcome :=
  if r.state = .published ∨ r.state = .alreadyPublished then
    match openPublishedCursor c keyring disk call.storeScope call.limits with
    | .ok cursor => .answered r.state (some cursor) r.reason
    | .error (_, why) => .answered .ioError none s!"cursor pós-publicação ilegível: {why}"
  else .answered r.state none r.reason

/-- `publish_batch`. -/
def publishBatch (c : Crypto) (keyring : Keyring) (disk : PublicationDisk) (call : BatchCall) :
    BatchOutcome × PublicationDisk :=
  match checkBatchTokens c call with
  | .error (.answer r) => (.answered r.state none r.reason, disk)
  | .error (.raised e) => (.raised e, disk)
  | .ok () =>
    match publishImpl c keyring disk call.publishCall with
    | (.raised e, disk') => (.raised e, disk')
    | (.crashed, disk') => (.crashed, disk')
    | (.answered r, disk') => (reopenCursor c keyring disk' call r, disk')

end ProofRay.Engine
