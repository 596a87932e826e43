/- The epoch manifest: the canonical authenticated document of one generation, the
   coverage law and the resource preflight on it (`horizon_manifest.py`). -/

import ProofRay.Engine.Artifacts
import ProofRay.Engine.Reducer

namespace ProofRay.Engine

open Lib.Guard
open Lib.Struct (Field Record unpack unpackMany)

def manifestMagic : Bytes := ascii "HEM2"
def manifestFormatVersion : Int := 2
def maxManifestSegments : Int := 1048576

/-- `<4sHIIIQQiBBII`: magic, version, scope, generation, fact count, H, R, parent,
lineage, base artifacts, segments, key. -/
abbrev manHeaderFormat : List Field :=
  [.bytes 4, .u16, .u32, .u32, .u32, .u64, .u64, .i32, .u8, .u8, .u32, .u32]

abbrev manParentDigestFormat : List Field := [.bytes 32]

/-- `<BHBQ32sI`: kind, format version, required, byte length, digest, key. -/
abbrev manDescFormat : List Field := [.u8, .u16, .u8, .u64, .bytes 32, .u32]

/-- `<IIQIBQ32sQ32s16sI`: ordinal, segment, first sequence, records, status, durable
length and digest, sealed length and digest, previous digest, key. -/
abbrev manSegFormat : List Field :=
  [.u32, .u32, .u64, .u32, .u8, .u64, .bytes 32, .u64, .bytes 32, .bytes 16, .u32]

def manHeaderSize : Nat := 48
def manParentDigestSize : Nat := 32
def manDescSize : Nat := 48
def manSegSize : Nat := 121

example : manHeaderSize = Lib.Struct.size manHeaderFormat ∧
    manParentDigestSize = Lib.Struct.size manParentDigestFormat ∧
    manDescSize = Lib.Struct.size manDescFormat ∧
    manSegSize = Lib.Struct.size manSegFormat := by decide

/-- The states of an opening other than `VALID`. -/
inductive OpenGenerationState where
  | requiredMissing
  | corrupt
  | incompatible
  | resourceLimit
  | coverageError
  deriving DecidableEq, Repr

abbrev ManifestFault := OpenGenerationState × String

@[ext] structure EpochManifest where
  scopeId : Int
  generationId : Int
  factCount : Int
  baseSeq : Int
  readSeq : Int
  parentGenerationId : Int
  parentManifestDigest : Bytes
  baseDescriptors : ArtifactKind → ArtifactDescriptor
  segments : List WalSegmentDescriptor
  keyId : Int

instance : DecidableEq EpochManifest := fun _ _ =>
  decidable_of_iff _ EpochManifest.ext_iff.symm

def descriptorRecord (kind : ArtifactKind) (d : ArtifactDescriptor) : Record manDescFormat :=
  (kind.code, d.formatVersion, if d.required then 1 else 0, d.byteLength, d.sha256, d.keyId, ())

def ofDescriptorRecord : Record manDescFormat → Int × ArtifactDescriptor
  | (k, fmt, req, blen, sha, kid, ()) => (k, ⟨fmt, decide (req ≠ 0), blen, sha, kid⟩)

def segmentRecord (s : WalSegmentDescriptor) : Record manSegFormat :=
  (s.ordinal, s.segmentId, s.firstSeq, s.recordCount, s.status, s.durablePrefixLength,
    s.durablePrefixSha256, s.sealedObjectLength, s.sealedObjectSha256, s.prevSegmentDigest,
    s.keyId, ())

def ofSegmentRecord : Record manSegFormat → WalSegmentDescriptor
  | (ordn, sid, fs, rc, st, dl, dsha, sl, ssha, prev, kid, ()) =>
    ⟨ordn, sid, fs, rc, st, dl, dsha, sl, ssha, prev, kid⟩

namespace EpochManifest

/-- `_lineage_flag`: genesis, or a parent that is checked at opening only. -/
def lineageFlag (man : EpochManifest) : Int := if man.parentGenerationId < 0 then 0 else 2

def headerRecord (man : EpochManifest) : Record manHeaderFormat :=
  (manifestMagic, manifestFormatVersion, man.scopeId, man.generationId, man.factCount,
    man.baseSeq, man.readSeq, man.parentGenerationId, man.lineageFlag, (baseKinds.length : Int),
    (man.segments.length : Int), man.keyId, ())

/-- `_body`. -/
def body (man : EpochManifest) : Except PyError Bytes := do
  let header ← structPack manHeaderFormat man.headerRecord
  let parent ← structPack manParentDigestFormat (man.parentManifestDigest, ())
  let descs ← structPackMany manDescFormat
    (baseKinds.map fun kind => descriptorRecord kind (man.baseDescriptors kind))
  let segs ← structPackMany manSegFormat (man.segments.map segmentRecord)
  return header ++ (parent ++ (descs ++ segs))

def mac (c : Crypto) (key body : Bytes) : Bytes := c.tag key (ascii "HORIZONEPOCH" ++ body)

def serialize (c : Crypto) (key : Bytes) (man : EpochManifest) : Except PyError Bytes := do
  let body ← man.body
  return body ++ mac c key body

end EpochManifest

structure ManHeader where
  magic : Bytes
  ver : Int
  scope : Int
  gen : Int
  factCount : Int
  baseSeq : Int
  readSeq : Int
  parent : Int
  lineage : Int
  nBase : Int
  nSeg : Int
  keyId : Int

def ManHeader.ofRecord : Record manHeaderFormat → ManHeader
  | (magic, ver, scope, gen, fc, h, r, parent, lineage, nBase, nSeg, keyId, ()) =>
    ⟨magic, ver, scope, gen, fc, h, r, parent, lineage, nBase, nSeg, keyId⟩

/-- `_read_seq_ok`. -/
abbrev readSeqOk (v : Int) : Prop := 0 ≤ v ∧ v < maxSeq

def parseDescriptors : List (Int × ArtifactDescriptor) → List (ArtifactKind × ArtifactDescriptor) →
    Except ManifestFault (List (ArtifactKind × ArtifactDescriptor))
  | [], seen => .ok seen
  | (k, d) :: rest, seen => do
    let kind ← orThrow (ArtifactKind.ofCode k) (.corrupt, "kind desconhecido")
    require (kind ∉ seen.map Prod.fst) (.corrupt, "kind duplicado")
    parseDescriptors rest (seen ++ [(kind, d)])

def descriptorOf (seen : List (ArtifactKind × ArtifactDescriptor)) (kind : ArtifactKind) :
    ArtifactDescriptor :=
  (seen.lookup kind).getD ⟨0, false, 0, [], 0⟩

/-- Bytes of a manifest with `n` segments. -/
def manifestLength (n : Nat) : Nat :=
  manHeaderSize + manParentDigestSize + baseKinds.length * manDescSize + n * manSegSize + tagBytes

def parseBody (h : ManHeader) (blob : Bytes) : Except ManifestFault EpochManifest := do
  require (readSeqOk h.baseSeq ∧ readSeqOk h.readSeq) (.corrupt, "seq fora de faixa")
  require (¬ h.parent < -1) (.corrupt, "parent_generation_id inválido (< -1)")
  require (0 ≤ h.parent → h.parent < h.gen) (.corrupt, "parent_generation_id >= generation_id")
  let parentDigest := (unpack manParentDigestFormat (blob.drop manHeaderSize)).1
  require (¬ (h.parent < 0 ∧ parentDigest ≠ zeros 32)) (.corrupt, "genesis com digest de pai")
  require (¬ (0 ≤ h.parent ∧ parentDigest = zeros 32)) (.corrupt, "pai sem digest")
  let descOff := manHeaderSize + manParentDigestSize
  let descs ← parseDescriptors
    ((unpackMany manDescFormat baseKinds.length (blob.drop descOff)).map ofDescriptorRecord) []
  require (∀ kind ∈ baseKinds, kind ∈ descs.map Prod.fst) (.corrupt, "conjunto de base incompleto")
  let segOff := descOff + baseKinds.length * manDescSize
  return { scopeId := h.scope
           generationId := h.gen
           factCount := h.factCount
           baseSeq := h.baseSeq
           readSeq := h.readSeq
           parentGenerationId := h.parent
           parentManifestDigest := parentDigest
           baseDescriptors := descriptorOf descs
           segments :=
             (unpackMany manSegFormat h.nSeg.toNat (blob.drop segOff)).map ofSegmentRecord
           keyId := h.keyId }

/-- `parse_manifest`.  The checks that a `u32` field cannot fail are left out. -/
def parseManifest (c : Crypto) (keyring : Keyring) (blob : Option Bytes) :
    Except ManifestFault EpochManifest := do
  let blob ← orThrow blob (.requiredMissing, "manifest ausente")
  require (manHeaderSize + manParentDigestSize + tagBytes ≤ blob.length) (.corrupt, "curto demais")
  let h := ManHeader.ofRecord (unpack manHeaderFormat blob)
  require (h.magic = manifestMagic) (.corrupt, "magic")
  require (h.ver = manifestFormatVersion) (.incompatible, "versão do manifesto")
  require (h.nBase = baseKinds.length) (.corrupt, "n_base")
  require (h.nSeg ≤ maxManifestSegments) (.corrupt, "n_segments")
  require (blob.length = manifestLength h.nSeg.toNat) (.corrupt, "comprimento não canônico")
  let key ← orThrow (keyring.get h.keyId) (.incompatible, "key_id desconhecido")
  let bodyLen := blob.length - tagBytes
  require (EpochManifest.mac c key (blob.take bodyLen) = blob.drop bodyLen) (.corrupt, "MAC")
  parseBody h blob

/-- The checks `check_coverage` makes of the segment at index `i`. -/
def segmentCoverageFault (i : Nat) (isLast : Bool) (extended : Bool) (expected : Int)
    (prevSegmentId : Int) (prevDigest : Bytes) (s : WalSegmentDescriptor) : Option String :=
  if s.ordinal ≠ i then some s!"ordinal fora de ordem em {i}"
  else if ¬ (0 ≤ s.segmentId ∧ s.segmentId ≤ 4294967295) then
    some s!"segment_id fora de u32 em {i}"
  else if s.segmentId ≤ prevSegmentId then some s!"segment_id não-monotônico em {i}"
  else if ¬ (s.status = stateActive ∨ s.status = stateSealed) then
    some s!"status inválido em {i}"
  else if s.recordCount < 0 then some s!"record_count negativo em {i}"
  else if s.firstSeq ≠ expected then
    some s!"gap/overlap em {i}: first_seq={s.firstSeq} != {expected}"
  else if s.status = stateActive ∧ ¬ isLast then some s!"ACTIVE não-final em {i}"
  else if s.status = stateSealed ∧ isLast ∧ extended ∧ s.recordCount = 0 then
    some "último SEALED vazio"
  else if s.recordCount = 0 ∧ ¬ (isLast ∧ s.status = stateActive) then
    some s!"segmento vazio ilegal em {i}"
  else if s.durablePrefixLength ≤ 0 then some s!"durable_prefix vazio em {i}"
  else if s.status = stateSealed ∧ (s.sealedObjectLength ≠ s.durablePrefixLength ∨
      s.sealedObjectSha256 ≠ s.durablePrefixSha256 ∨ s.sealedObjectSha256 = zeros 32) then
    some s!"SEALED não canônico em {i}"
  else if s.status ≠ stateSealed ∧
      (s.sealedObjectLength ≠ 0 ∨ s.sealedObjectSha256 ≠ zeros 32) then
    some s!"ACTIVE não canônico em {i} (sealed_object deve ser vazio)"
  else if s.prevSegmentDigest ≠ prevDigest then some s!"cadeia quebrada em {i}"
  else none

/-- The loop of `check_coverage`: the sequence expected after the last segment. -/
def coverageLoop (extended : Bool) : List WalSegmentDescriptor → Nat → Int → Int → Bytes →
    Except String Int
  | [], _, expected, _, _ => .ok expected
  | s :: ss, i, expected, prevSegmentId, prevDigest =>
    match segmentCoverageFault i ss.isEmpty extended expected prevSegmentId prevDigest s with
    | some reason => .error reason
    | none =>
      if maxSeq ≤ expected + s.recordCount then .error "overflow de seq"
      else coverageLoop extended ss (i + 1) (expected + s.recordCount) s.segmentId
        (s.sealedObjectSha256.take 16)

def checkCoverage (man : EpochManifest) : Option String :=
  if man.readSeq < man.baseSeq then some "R < H"
  else if man.segments = [] then
    if man.readSeq = man.baseSeq then none else some "sem WAL mas R != H"
  else
    match coverageLoop (decide (man.baseSeq < man.readSeq)) man.segments 0 (man.baseSeq + 1) (-1)
        (zeros 16) with
    | .error reason => some reason
    | .ok expected =>
      if expected ≠ man.readSeq + 1 then
        some s!"soma de cobertura {expected - 1} != R={man.readSeq}"
      else none

structure GenerationLimits where
  maxManifestBytes : Int
  maxBaseBytes : Int
  maxSegments : Int
  maxSegmentBytes : Int
  maxTotalWalBytes : Int
  maxFramesPerSegment : Int
  maxTotalFrames : Int
  maxTotalGenerationBytes : Int
  deriving DecidableEq, Repr

def defaultGenerationLimits : GenerationLimits :=
  ⟨1 <<< 24, 1 <<< 34, 1 <<< 20, 1 <<< 32, 1 <<< 34, 1 <<< 24, 1 <<< 26, 1 <<< 35⟩

def baseBytesLoop (limit : Int) : List ArtifactDescriptor → Int → Except String Int
  | [], total => .ok total
  | d :: ds, total =>
    if d.byteLength > limit - total then
      .error "soma dos artefatos da base excede o limite"
    else baseBytesLoop limit ds (total + d.byteLength)

def walBytesLoop (gl : GenerationLimits) : List WalSegmentDescriptor → Int → Int →
    Except String (Int × Int)
  | [], totalWal, totalFrames => .ok (totalWal, totalFrames)
  | s :: ss, totalWal, totalFrames =>
    if s.durablePrefixLength > gl.maxSegmentBytes then
      .error "segmento excede o limite de bytes"
    else if s.recordCount > gl.maxFramesPerSegment then
      .error "segmento excede o limite de frames"
    else if s.durablePrefixLength > gl.maxTotalWalBytes - totalWal then
      .error "bytes totais de WAL excedem o limite"
    else if s.recordCount > gl.maxTotalFrames - totalFrames then
      .error "frames totais excedem o limite"
    else walBytesLoop gl ss (totalWal + s.durablePrefixLength) (totalFrames + s.recordCount)

/-- `_generation_preflight`: the first declared resource over its limit. -/
def generationPreflight (man : EpochManifest) (manifestLen : Nat) (gl : GenerationLimits) :
    Option String :=
  if (manifestLen : Int) > gl.maxManifestBytes then some "manifest excede o limite"
  else
    match baseBytesLoop gl.maxBaseBytes (baseKinds.map man.baseDescriptors) 0 with
    | .error reason => some reason
    | .ok baseBytes =>
      if (man.segments.length : Int) > gl.maxSegments then
        some "número de segmentos excede o limite"
      else
        match walBytesLoop gl man.segments 0 0 with
        | .error reason => some reason
        | .ok (totalWal, _) =>
          if totalWal > gl.maxTotalGenerationBytes - baseBytes then
            some "bytes totais da geração excedem o limite"
          else none

end ProofRay.Engine
