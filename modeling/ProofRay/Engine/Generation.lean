/- Opening a generation: manifest, coverage, resources, base and the replay of its
   segments, in that order (`horizon_manifest.py`, `open_generation`). -/

import ProofRay.Engine.Base
import ProofRay.Engine.Manifest
import ProofRay.Engine.WalStore

namespace ProofRay.Engine

open Lib.Guard

inductive Lineage where
  | genesis
  | verified
  | unverified
  deriving DecidableEq, Repr

/-- How an opening ends without a handle: an exception, or a typed state. -/
inductive OpenFailure where
  | raised (e : PyError)
  | state (s : OpenGenerationState) (reason : String)
  deriving DecidableEq, Repr

def OpenFailure.ofFault (fault : ManifestFault) : OpenFailure := .state fault.1 fault.2

structure GenerationHandle where
  scopeId : Int
  generationId : Int
  factCount : Int
  baseSeq : Int
  readSeq : Int
  lineage : Lineage
  bundle : GenerationBundle
  l0 : WalIndex
  txindex : TxIdIndex
  dedup : DedupTable

namespace GenerationHandle

def view (h : GenerationHandle) : ReadView := ⟨h.generationId, h.scopeId, h.baseSeq, h.readSeq⟩

def readFact (c : Crypto) (h : GenerationHandle) (factId : Int) : ReadResult :=
  read c h.view h.bundle h.l0 factId

def baseView (c : Crypto) (h : GenerationHandle) : BaseView :=
  bundleBaseView c h.view h.bundle (some h.dedup)

end GenerationHandle

/-- `_open_base_artifact`. -/
def openBaseArtifact (c : Crypto) (limits : ArtifactLimits) (keyring : Keyring)
    (store : ObjectStore) (kind : ArtifactKind) (desc : ArtifactDescriptor) :
    Except OpenFailure (Component kind) :=
  let blob : Except OpenFailure (Option Bytes) :=
    match store.getLimited desc.sha256 limits.maxBlobBytes with
    | .ok blob => .ok (some blob)
    | .error .missing => .ok none
    | .error .countLimit => .error (.state .resourceLimit "store/COUNT_LIMIT")
  blob >>= fun blob =>
    (openArtifact c limits keyring kind desc blob).mapError fun fault =>
      let state : OpenGenerationState :=
        match fault.1 with
        | .requiredMissing | .absentAllowed => .requiredMissing
        | .corrupt => .corrupt
        | .incompatible => .incompatible
        | .resourceLimit => .resourceLimit
      .state state s!"{kind.name}/{fault.2}"

def descriptorFault (man : EpochManifest) : List ArtifactKind → Option OpenFailure
  | [] => none
  | kind :: kinds =>
    if ¬ (man.baseDescriptors kind).required then
      some (.state .coverageError s!"{kind.name} não obrigatório")
    else if (man.baseDescriptors kind).formatVersion ≠ kind.descriptorVersion then
      some (.state .incompatible s!"{kind.name} versão de formato")
    else descriptorFault man kinds

/-- The base of a manifest: its bundle and its retry memory. -/
structure OpenBase where
  bundle : GenerationBundle
  dedup : DedupTable

def openBase (c : Crypto) (limits : ArtifactLimits) (keyring : Keyring) (store : ObjectStore)
    (man : EpochManifest) : Except OpenFailure OpenBase := do
  let openOne := openBaseArtifact c limits keyring store
  let registry : FactRegistry ← openOne .registry (man.baseDescriptors .registry)
  let bulk : BulkSnapshot ← openOne .bulk (man.baseDescriptors .bulk)
  let residual : ResidualField ← openOne .residual (man.baseDescriptors .residual)
  let tombstoneLayer : TombstoneLayer ← openOne .tombstone (man.baseDescriptors .tombstone)
  let dedup : DedupTable ← openOne .dedup (man.baseDescriptors .dedup)
  let fault := validateBaseArtifacts registry bulk residual tombstoneLayer man.scopeId
    man.generationId man.factCount
  require (fault = none) (.state .corrupt ("base incoerente: " ++ fault.getD ""))
  require (dedup.scopeId = man.scopeId ∧ dedup.generationId = man.generationId)
    (.state .coverageError "dedup: escopo/geração")
  require (dedup.dedupThroughSeq = man.baseSeq)
    (.state .coverageError s!"dedup_through={dedup.dedupThroughSeq} != H={man.baseSeq}")
  let tombKey := (keyring.get (man.baseDescriptors .tombstone).keyId).getD []
  let tombOpen := openTombstone c (some tombstoneLayer.blob) tombKey true
  return ⟨⟨man.scopeId, man.generationId, some residual, some registry, tombOpen, bulk⟩, dedup⟩

def EpochManifest.view (man : EpochManifest) : ReadView :=
  ⟨man.generationId, man.scopeId, man.baseSeq, man.readSeq⟩

/-- `_SEGMENT_STATE_MAP`. -/
def segmentState : ActivePrefixState → OpenGenerationState
  | .missing => .requiredMissing
  | .missingCommittedPrefix => .corrupt
  | .resourceLimit => .resourceLimit
  | .incompatible => .incompatible
  | .corrupt | .ioError => .corrupt

/-- `_REDUCE_STATE_MAP`. -/
def reduceState : ReduceClass → OpenGenerationState
  | .coverage => .coverageError
  | .limit => .resourceLimit
  | _ => .corrupt

def GenerationLimits.walLimits (gl : GenerationLimits) : WalStoreLimits :=
  ⟨gl.maxSegmentBytes, gl.maxSegmentBytes⟩

def GenerationLimits.reducerLimits (gl : GenerationLimits) : ReducerLimits :=
  ⟨gl.maxSegments, gl.maxTotalFrames, gl.maxTotalWalBytes, gl.maxFramesPerSegment,
    gl.maxSegmentBytes⟩

def openSegment (c : Crypto) (keyring : Keyring) (walStore : WalStore) (scopeId : Int)
    (wlim : WalStoreLimits) (s : WalSegmentDescriptor) :
    Except OpenFailure ValidatedWalSegment := do
  let tag := s!"segmento ord={s.ordinal} sid={s.segmentId}"
  require (keyring.get s.keyId ≠ none) (.state .incompatible s!"{tag}: key_id")
  let seg ← (walStore.readValidatedSegment c keyring s scopeId wlim).mapError fun fault =>
    .state (segmentState fault.1) s!"{tag}: {fault.2}"
  let h := seg.header
  require (h.formatVersion = walFormatVersion) (.state .incompatible s!"{tag}: WAL versão")
  require (h.scopeId = scopeId ∧ h.segmentId = s.segmentId ∧ h.firstSeq = s.firstSeq ∧
      h.keyId = s.keyId ∧ h.previousSegmentDigest = s.prevSegmentDigest)
    (.state .coverageError s!"{tag}: header diverge do descriptor")
  return seg

def feedManifest (c : Crypto) (keyring : Keyring) (walStore : WalStore) (scopeId : Int)
    (wlim : WalStoreLimits) : List WalSegmentDescriptor → ReducerState →
    Except OpenFailure ReducerState
  | [], reducer => .ok reducer
  | s :: ss, reducer => do
    let seg ← openSegment c keyring walStore scopeId wlim s
    let (reducer, step) ← (reducer.feedSegment c seg s).mapError .raised
    require (step.ok = true) (.state (reduceState step.classification)
      s!"segmento ord={s.ordinal} sid={s.segmentId}: {step.reason}")
    feedManifest c keyring walStore scopeId wlim ss reducer

def replayGeneration (c : Crypto) (keyring : Keyring) (walStore : WalStore) (man : EpochManifest)
    (base : BaseView) (reducerLimits : ReducerLimits) (wlim : WalStoreLimits) :
    Except OpenFailure ReplayResult := do
  let reducer := ReducerState.start base man.baseSeq man.readSeq reducerLimits
  let reducer ← feedManifest c keyring walStore man.scopeId wlim man.segments reducer
  let rp := reducer.finish.2
  require (rp.classification = .ok) (.state (reduceState rp.classification)
    s!"replay: {rp.classification.text}")
  require (rp.appliedSeq = man.readSeq)
    (.state .coverageError s!"applied_seq={rp.appliedSeq} != R={man.readSeq}")
  return rp

def checkLineage (c : Crypto) (keyring : Keyring) (man : EpochManifest)
    (parentBlob : Option Bytes) : Except OpenFailure Lineage :=
  if man.parentGenerationId < 0 then .ok .genesis
  else
    match parentBlob with
    | none => .ok .unverified
    | some blob => do
      let parent ← (parseManifest c keyring (some blob)).mapError fun _ =>
        .state .corrupt "manifesto pai ilegível/não autenticado"
      require (c.sha256 blob = man.parentManifestDigest)
        (.state .corrupt "SHA-256 do pai não confere")
      require (parent.scopeId = man.scopeId ∧ parent.generationId = man.parentGenerationId)
        (.state .corrupt "pai com scope/generation incompatível")
      return .verified

def admitManifest (c : Crypto) (keyring : Keyring) (gl : GenerationLimits)
    (manifestBlob : Option Bytes) : Except OpenFailure EpochManifest := do
  let man ← (parseManifest c keyring manifestBlob).mapError OpenFailure.ofFault
  require (checkCoverage man = none) (.state .coverageError ((checkCoverage man).getD ""))
  let fault := generationPreflight man (manifestBlob.getD []).length gl
  require (fault = none) (.state .resourceLimit (fault.getD ""))
  match descriptorFault man baseKinds with
  | some failure => .error failure
  | none => .ok man

/-- `open_generation`. -/
def openGeneration (c : Crypto) (manifestBlob : Option Bytes) (objectStore : ObjectStore)
    (walStore : WalStore) (keyring : Keyring) (limits : ArtifactLimits)
    (parentManifestBlob : Option Bytes) (reducerLimits : Option ReducerLimits)
    (gl : GenerationLimits) : Except OpenFailure GenerationHandle := do
  let man ← admitManifest c keyring gl manifestBlob
  let base ← openBase c limits keyring objectStore man
  let baseView := bundleBaseView c man.view base.bundle (some base.dedup)
  let rp ← replayGeneration c keyring walStore man baseView
    (reducerLimits.getD gl.reducerLimits) gl.walLimits
  let lineage ← checkLineage c keyring man parentManifestBlob
  return ⟨man.scopeId, man.generationId, man.factCount, man.baseSeq, man.readSeq, lineage,
    base.bundle, rp.index, rp.txindex, base.dedup⟩

end ProofRay.Engine
