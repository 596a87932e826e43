/- The write-ahead log: operation digests, the frame, header and footer codecs and
   the physical scan of one segment (`horizon_wal.py`). -/

import ProofRay.Engine.Store

namespace ProofRay.Engine

open Lib.Guard
open Lib.Struct (Field Record unpack)

def walMagic : Bytes := ascii "HWL1"
def walFormatVersion : Int := 2
def recordVersion : Int := 2
def sealMagic : Bytes := ascii "WSEAL"

def opCode : Op → Int
  | .put => 1
  | .delete => 2

def codeOp (code : Int) : Option Op :=
  if code = 1 then some .put else if code = 2 then some .delete else none

@[simp] theorem codeOp_opCode (op : Op) : codeOp (opCode op) = some op := by
  cases op <;> rfl

def stateActive : Int := 0
def stateSealed : Int := 1

def maxPayload : Nat := 1048576
def putPayload : Nat := 4
def minFrame : Nat := 76
def maxFrame : Nat := 1048652
def maxRecords : Int := 1073741824
def maxSeq : Int := 4611686018427387904
def maxFactId : Int := 4611686018427387904

/-- The magnitudes the source writes as shifts. -/
example : maxPayload = 1 <<< 20 ∧ maxRecords = 1 <<< 30 ∧ maxSeq = 1 <<< 62 ∧
    maxFactId = 1 <<< 62 ∧ minFrame = 8 + 44 + 4 + tagBytes + 4 ∧
    maxFrame = minFrame + maxPayload := by decide

/-- `<4sHIIQIIIB16s`: magic, version, scope, segment, first sequence, key, payload
and record maxima, state, previous segment digest. -/
abbrev segHeaderFormat : List Field :=
  [.bytes 4, .u16, .u32, .u32, .u64, .u32, .u32, .u32, .u8, .bytes 16]

/-- `<HBBQ16sQII`: record version, op, flags, sequence, operation id, fact, version,
payload length. -/
abbrev frameFixedFormat : List Field := [.u16, .u8, .u8, .u64, .bytes 16, .u64, .u32, .u32]

/-- `<5sQQ16s`: magic, last sequence, byte length, prefix digest. -/
abbrev sealFormat : List Field := [.bytes 5, .u64, .u64, .bytes 16]

def segHeaderSize : Nat := 51
def frameFixedSize : Nat := 44
def sealSize : Nat := 37
def sealFooterBytes : Nat := sealSize + tagBytes

example : segHeaderSize = Lib.Struct.size segHeaderFormat ∧
    frameFixedSize = Lib.Struct.size frameFixedFormat ∧
    sealSize = Lib.Struct.size sealFormat := by decide

/-- `operation_id` of 128 bits: client and transaction. -/
def makeOperationId (clientId txid : Int) : Except PyError Bytes :=
  structPack [.u64, .u64] (clientId, txid, ())

/-- The payload of a frame: nothing for `none`, a `u32` otherwise. -/
def valuePayload (value : Option Int) : Except PyError Bytes :=
  match value with
  | none => .ok []
  | some v => structPack [.u32] (v, ())

def contentDigest (c : Crypto) (op : Op) (factId factVersion : Int) (value : Option Int) :
    Except PyError Bytes := do
  let payload ← valuePayload value
  let fields ← structPack [.u8, .u64, .u32] (opCode op, factId, factVersion, ())
  return (c.sha256 (ascii "OPDIGEST" ++ fields ++ payload)).take 16

def frameMac (c : Crypto) (key : Bytes) (scopeId segmentId : Int) (bodyCrc : Bytes) :
    Except PyError Bytes := do
  let ids ← structPack [.u32, .u32] (scopeId, segmentId, ())
  return c.tag key (ascii "WALFRAME" ++ ids ++ bodyCrc)

/-- `n ^ 0xFFFFFFFF`. -/
def complement32 (n : Nat) : Nat := n ^^^ 4294967295

def encodeFrame (c : Crypto) (key : Bytes) (scopeId segmentId : Int) (op : Op) (walSeq : Int)
    (operationId : Bytes) (factId factVersion : Int) (payload : Bytes) :
    Except PyError Bytes := do
  require (operationId.length = 16) (.walError "operation_id precisa ter 16 bytes")
  require (payload.length ≤ maxPayload) (.walError "payload acima do limite")
  let fixed ← structPack frameFixedFormat
    (recordVersion, opCode op, 0, walSeq, operationId, factId, factVersion,
      (payload.length : Int), ())
  let totalLength := 8 + fixed.length + payload.length + 4 + tagBytes + 4
  let head ← structPack [.u32, .u32] ((totalLength : Int), (complement32 totalLength : Int), ())
  let body := head ++ fixed ++ payload
  let crc ← structPack [.u32] ((c.crc32 body : Int), ())
  let mac ← frameMac c key scopeId segmentId (body ++ crc)
  let trailer ← structPack [.u32] ((totalLength : Int), ())
  return body ++ crc ++ mac ++ trailer

def encodeSegmentHeader (c : Crypto) (key : Bytes) (scopeId segmentId firstSeq keyId : Int)
    (segmentState : Int) (previousSegmentDigest : Bytes) : Except PyError Bytes := do
  let fields ← structPack segHeaderFormat
    (walMagic, walFormatVersion, scopeId, segmentId, firstSeq, keyId, (maxPayload : Int),
      maxRecords, segmentState, previousSegmentDigest, ())
  return fields ++ c.tag key (ascii "WALSEGMENT" ++ fields)

def sealFooter (c : Crypto) (key : Bytes) (scopeId segmentId lastSeq : Int) (byteLength : Nat)
    (prefixDigest : Bytes) : Except PyError Bytes := do
  let fields ← structPack sealFormat (sealMagic, lastSeq, (byteLength : Int), prefixDigest, ())
  let ids ← structPack [.u32, .u32] (scopeId, segmentId, ())
  return fields ++ c.tag key (ascii "WALSEAL" ++ ids ++ fields)

/-- One decoded frame: the tuple the reducer consumes. -/
structure Frame where
  op : Op
  seq : Int
  operationId : Bytes
  factId : Int
  factVersion : Int
  value : Option Int
  deriving DecidableEq, Repr

/-- The fixed part of a frame. -/
structure FrameFixed where
  recVer : Int
  opc : Int
  flags : Int
  seq : Int
  opId : Bytes
  factId : Int
  fver : Int
  plen : Int

def FrameFixed.ofRecord : Record frameFixedFormat → FrameFixed
  | (recVer, opc, flags, seq, opId, factId, fver, plen, ()) =>
    ⟨recVer, opc, flags, seq, opId, factId, fver, plen⟩

def canonicalFrameOk (f : FrameFixed) : Bool :=
  match codeOp f.opc with
  | none => false
  | some op =>
    f.flags = 0 ∧ (op = .put → f.plen = putPayload) ∧ (op = .delete → f.plen = 0) ∧
      1 ≤ f.fver ∧ 0 ≤ f.seq ∧ f.seq < maxSeq ∧ 0 ≤ f.factId ∧ f.factId < maxFactId

def u32At (b : Bytes) (off : Nat) : Int := (unpack [.u32] (b.drop off)).1

def frameLength (rest : Bytes) : Option Nat :=
  let total := (u32At rest 0).toNat
  if complement32 total = (u32At rest 4).toNat ∧ minFrame ≤ total ∧ total ≤ maxFrame then
    some total
  else none

def frameTuple (frame : Bytes) : Option Frame :=
  let fixed := FrameFixed.ofRecord (unpack frameFixedFormat (frame.drop 8))
  (codeOp fixed.opc).map fun op =>
    ⟨op, fixed.seq, fixed.opId, fixed.factId, fixed.fver,
      if op = .put then some (u32At frame (8 + frameFixedSize)) else none⟩

def scanFrame (c : Crypto) (key : Bytes) (scopeId segmentId : Int) (frame : Bytes)
    (expectedSeq : Int) : Option Frame :=
  let total := frame.length
  let fixed := FrameFixed.ofRecord (unpack frameFixedFormat (frame.drop 8))
  let plen := fixed.plen.toNat
  let crcOff := 8 + frameFixedSize + plen
  let macOff := crcOff + 4
  if u32At frame (total - 4) = total ∧ fixed.recVer = recordVersion ∧
      fixed.plen = total - minFrame ∧ (c.crc32 (frame.take crcOff) : Int) = u32At frame crcOff ∧
      frameMac c key scopeId segmentId (frame.take macOff) =
        .ok ((frame.drop macOff).take tagBytes) ∧
      fixed.seq = expectedSeq ∧ canonicalFrameOk fixed then
    frameTuple frame
  else none

inductive ScanClass where
  | clean
  | tailDropped
  | corruptCommittedPrefix
  | missingRequired
  | missingCommittedPrefix
  | incompatible
  deriving DecidableEq, Repr

def ScanClass.text : ScanClass → String
  | .clean => "CLEAN"
  | .tailDropped => "TAIL_DROPPED"
  | .corruptCommittedPrefix => "CORRUPT_COMMITTED_PREFIX"
  | .missingRequired => "MISSING_REQUIRED"
  | .missingCommittedPrefix => "MISSING_COMMITTED_PREFIX"
  | .incompatible => "INCOMPATIBLE"

/-- The authenticated identity of a segment file. -/
structure WalHeaderInfo where
  scopeId : Int
  segmentId : Int
  firstSeq : Int
  keyId : Int
  previousSegmentDigest : Bytes
  formatVersion : Int
  deriving DecidableEq, Repr

/-- A declared coverage: the footer's or the manifest's. -/
structure SegmentSeal where
  lastSeq : Int
  byteLength : Int
  prefixDigest : Bytes
  deriving DecidableEq, Repr

structure ScanResult where
  classification : ScanClass
  frames : List Frame
  lastSeq : Int
  consumedBytes : Nat
  droppedTailBytes : Nat
  isSealed : Bool
  header : Option WalHeaderInfo
  deriving DecidableEq, Repr

structure SegHeader where
  magic : Bytes
  ver : Int
  scope : Int
  seg : Int
  firstSeq : Int
  kid : Int
  maxp : Int
  maxr : Int
  segState : Int
  prev : Bytes

def SegHeader.ofRecord : Record segHeaderFormat → SegHeader
  | (magic, ver, scope, seg, firstSeq, kid, maxp, maxr, segState, prev, ()) =>
    ⟨magic, ver, scope, seg, firstSeq, kid, maxp, maxr, segState, prev⟩

/-- The header checks of `scan`, in order. -/
def scanHeader (c : Crypto) (key : Bytes) (scopeId segmentId : Int) (blob : Bytes) :
    Except ScanClass WalHeaderInfo := do
  require (segHeaderSize + tagBytes ≤ blob.length) .corruptCommittedPrefix
  let hdr := blob.take segHeaderSize
  let h := SegHeader.ofRecord (unpack segHeaderFormat hdr)
  require (h.magic = walMagic) .corruptCommittedPrefix
  require (h.ver = walFormatVersion) .incompatible
  require (c.tag key (ascii "WALSEGMENT" ++ hdr) = (blob.drop segHeaderSize).take tagBytes)
    .corruptCommittedPrefix
  require (h.scope = scopeId ∧ h.seg = segmentId) .corruptCommittedPrefix
  require (h.maxp ≤ maxPayload ∧ h.maxr ≤ maxRecords ∧
    (h.segState = stateActive ∨ h.segState = stateSealed)) .corruptCommittedPrefix
  return ⟨h.scope, h.seg, h.firstSeq, h.kid, h.prev, h.ver⟩

structure SealFields where
  magic : Bytes
  lastSeq : Int
  byteLength : Int
  digest : Bytes

def SealFields.ofRecord : Record sealFormat → SealFields
  | (magic, lastSeq, byteLength, digest, ()) => ⟨magic, lastSeq, byteLength, digest⟩

/-- What the scanner finds at an offset. -/
inductive ScanHead where
  | frame (f : Frame) (totalLength : Nat)
  | tail (bytes : Nat)
  | footer
  | fail (classification : ScanClass)

def scanSeal (c : Crypto) (key : Bytes) (scopeId segmentId : Int)
    (expectedSeal : Option SegmentSeal) (blob : Bytes) (off : Nat) (lastSeq : Int) : ScanHead :=
  let rest := blob.drop off
  if rest.length < sealFooterBytes then .tail rest.length
  else
    let sfields := rest.take sealSize
    let s := SealFields.ofRecord (unpack sealFormat sfields)
    match structPack [.u32, .u32] (scopeId, segmentId, ()) with
    | .error _ => .fail .corruptCommittedPrefix
    | .ok ids =>
      if c.tag key (ascii "WALSEAL" ++ ids ++ sfields) ≠ (rest.drop sealSize).take tagBytes then
        .fail .corruptCommittedPrefix
      else if rest.length ≠ sealFooterBytes then .fail .corruptCommittedPrefix
      else if s.byteLength ≠ off ∨ s.lastSeq ≠ lastSeq ∨
          s.digest ≠ (c.sha256 (blob.take off)).take 16 then .fail .corruptCommittedPrefix
      else
        match expectedSeal with
        | none => .footer
        | some e =>
          if s.lastSeq ≠ e.lastSeq ∨ s.byteLength ≠ e.byteLength ∨ s.digest ≠ e.prefixDigest then
            .fail .missingCommittedPrefix
          else .footer

def scanHead (c : Crypto) (key : Bytes) (scopeId segmentId : Int)
    (expectedSeal : Option SegmentSeal) (blob : Bytes) (off : Nat) (expectedSeq lastSeq : Int) :
    ScanHead :=
  let rest := blob.drop off
  if 5 ≤ rest.length ∧ rest.take 5 = sealMagic then
    scanSeal c key scopeId segmentId expectedSeal blob off lastSeq
  else if rest.length < 8 then .tail rest.length
  else
    match frameLength rest with
    | none => .fail .corruptCommittedPrefix
    | some total =>
      if rest.length < total then .tail rest.length
      else
        match scanFrame c key scopeId segmentId (rest.take total) expectedSeq with
        | none => .fail .corruptCommittedPrefix
        | some f => .frame f total

structure ScanState where
  frames : List Frame
  lastSeq : Int
  expectedSeq : Int
  off : Nat

def ScanState.next (st : ScanState) (f : Frame) (totalLength : Nat) : ScanState :=
  ⟨st.frames ++ [f], f.seq, st.expectedSeq + 1, st.off + totalLength⟩

/-- The loop of `scan`: the state it stops in, the torn bytes and whether a footer was
seen, or the result of an early return. -/
def scanLoop (c : Crypto) (key : Bytes) (scopeId segmentId : Int)
    (expectedSeal : Option SegmentSeal) (blob : Bytes) :
    Nat → ScanState → Except ScanResult (ScanState × Nat × Bool)
  | 0, st => .ok (st, 0, false)
  | fuel + 1, st =>
    if st.off < blob.length then
      match scanHead c key scopeId segmentId expectedSeal blob st.off st.expectedSeq st.lastSeq with
      | .frame f total =>
        scanLoop c key scopeId segmentId expectedSeal blob fuel (st.next f total)
      | .tail bytes => .ok (st, bytes, false)
      | .footer => .ok ({ st with off := blob.length }, 0, true)
      | .fail .missingCommittedPrefix =>
        .error ⟨.missingCommittedPrefix, [], st.lastSeq, st.off, 0, false, none⟩
      | .fail classification => .error ⟨classification, st.frames, st.lastSeq, st.off, 0, false, none⟩
    else .ok (st, 0, false)

def scanFinish (c : Crypto) (expectedSeal : Option SegmentSeal) (blob : Bytes)
    (header : WalHeaderInfo) (st : ScanState) (tailBytes : Nat) (isSealed : Bool) : ScanResult :=
  let result (classification : ScanClass) : ScanResult :=
    ⟨classification, st.frames, st.lastSeq, st.off, tailBytes, false, some header⟩
  let tail := st.off < blob.length
  if isSealed then ⟨.clean, st.frames, st.lastSeq, st.off, 0, true, some header⟩
  else
    match expectedSeal with
    | none => result (if tail then .tailDropped else .clean)
    | some e =>
      if ¬ tail ∧ (blob.length : Int) = e.byteLength ∧ st.lastSeq = e.lastSeq ∧
          (c.sha256 (blob.take e.byteLength.toNat)).take 16 = e.prefixDigest then
        result .clean
      else ⟨.missingCommittedPrefix, [], st.lastSeq, st.off, 0, false, none⟩

def scan (c : Crypto) (key : Bytes) (required : Bool) (scopeId segmentId : Int)
    (expectedSeal : Option SegmentSeal) (blob : Option Bytes) : ScanResult :=
  match blob with
  | none => ⟨if required then .missingRequired else .clean, [], 0, 0, 0, false, none⟩
  | some blob =>
    match scanHeader c key scopeId segmentId blob with
    | .error classification => ⟨classification, [], 0, 0, 0, false, none⟩
    | .ok header =>
      match scanLoop c key scopeId segmentId expectedSeal blob blob.length
          ⟨[], header.firstSeq - 1, header.firstSeq, segHeaderSize + tagBytes⟩ with
      | .error result => result
      | .ok (st, tailBytes, isSealed) => scanFinish c expectedSeal blob header st tailBytes isSealed

end ProofRay.Engine
