/- What is written is what the scanner reads: a frame of the encoder passes every
   check, and a segment of such frames scans clean. -/

import ProofRay.Engine.Wal

namespace ProofRay.Engine

open Lib.Guard
open Lib.Struct (unpack)

variable {rest : Bytes} {b : Bytes} {n : Nat}

theorem u32At_structPack {v : Int} (h : structPack [.u32] (v, ()) = .ok b) (before rest : Bytes) :
    u32At (before ++ (b ++ rest)) before.length = v := by
  simp only [u32At, List.drop_left', unpack_structPack h trivial]

/-- The pieces of an encoded frame. -/
structure FramePieces (c : Crypto) (key : Bytes) (scopeId segmentId : Int) (op : Op) (walSeq : Int)
    (operationId : Bytes) (factId factVersion : Int) (payload : Bytes) where
  head : Bytes
  fixed : Bytes
  crc : Bytes
  mac : Bytes
  trailer : Bytes
  packHead : structPack [.u32, .u32] ((((76 + payload.length : Nat) : Int)),
    ((complement32 (76 + payload.length) : Nat) : Int), ()) = .ok head
  packFixed : structPack frameFixedFormat
    (recordVersion, opCode op, 0, walSeq, operationId, factId, factVersion,
      (payload.length : Int), ()) = .ok fixed
  packCrc : structPack [.u32] ((c.crc32 (head ++ fixed ++ payload) : Int), ()) = .ok crc
  packMac : frameMac c key scopeId segmentId (head ++ fixed ++ payload ++ crc) = .ok mac
  packTrailer : structPack [.u32] (((76 + payload.length : Nat) : Int), ()) = .ok trailer
  idLength : operationId.length = 16

def FramePieces.bytes {c : Crypto} {key : Bytes} {scopeId segmentId : Int} {op : Op} {walSeq : Int}
    {operationId : Bytes} {factId factVersion : Int} {payload : Bytes}
    (p : FramePieces c key scopeId segmentId op walSeq operationId factId factVersion payload) :
    Bytes :=
  p.head ++ p.fixed ++ payload ++ p.crc ++ p.mac ++ p.trailer

theorem frameMac_length {c : Crypto} {key : Bytes} {scopeId segmentId : Int} {body mac : Bytes}
    (h : frameMac c key scopeId segmentId body = .ok mac) : mac.length = 16 := by
  simp only [frameMac, bind_eq_ok, pure_eq_ok] at h
  obtain ⟨ids, -, rfl⟩ := h
  exact c.length_tag key _

theorem framePieces {c : Crypto} {key : Bytes} {scopeId segmentId : Int} {op : Op} {walSeq : Int}
    {operationId : Bytes} {factId factVersion : Int} {payload frame : Bytes}
    (h : encodeFrame c key scopeId segmentId op walSeq operationId factId factVersion payload =
      .ok frame) :
    ∃ p : FramePieces c key scopeId segmentId op walSeq operationId factId factVersion payload,
      frame = p.bytes := by
  simp only [encodeFrame, bind_eq_ok, require_eq_ok, pure_eq_ok] at h
  obtain ⟨-, idLength, -, -, fixed, packFixed, head, packHead, crc, packCrc, mac, packMac,
    trailer, packTrailer, rfl⟩ := h
  have len : fixed.length = 44 := length_of_structPack packFixed
  have total : 8 + fixed.length + payload.length + 4 + tagBytes + 4 = 76 + payload.length := by
    rw [len]
    simp only [tagBytes]
    omega
  rw [total] at packHead packTrailer
  exact ⟨⟨head, fixed, crc, mac, trailer, packHead, packFixed, packCrc, packMac, packTrailer,
    idLength⟩, rfl⟩

/-- The payload of a command of kind `op`: a put carries a value, a delete none. -/
def payloadMatches (op : Op) (value : Option Int) : Prop := op = .put ↔ value.isSome

variable {value : Option Int} {bytes : Bytes} {f : Frame}

theorem valuePayload_length {op : Op} {payload : Bytes} (kind : payloadMatches op value)
    (h : valuePayload value = .ok payload) :
    payload.length = if op = .put then putPayload else 0 := by
  cases value with
  | none =>
    have notPut : op ≠ .put := fun put => by simpa using kind.mp put
    cases h
    rw [if_neg notPut]
    rfl
  | some v =>
    rw [if_pos (kind.mpr rfl)]
    exact length_of_structPack h

namespace FramePieces

variable {c : Crypto} {key : Bytes} {scopeId segmentId : Int} {op : Op} {walSeq : Int}
  {operationId : Bytes} {factId factVersion : Int} {payload : Bytes}
  (p : FramePieces c key scopeId segmentId op walSeq operationId factId factVersion payload)

include p

theorem head_length : p.head.length = 8 := length_of_structPack p.packHead

theorem fixed_length : p.fixed.length = 44 := length_of_structPack p.packFixed

theorem crc_length : p.crc.length = 4 := length_of_structPack p.packCrc

theorem mac_length : p.mac.length = 16 := frameMac_length p.packMac

theorem trailer_length : p.trailer.length = 4 := length_of_structPack p.packTrailer

theorem length : p.bytes.length = 76 + payload.length := by
  simp only [bytes, List.length_append, p.head_length, p.fixed_length, p.crc_length,
    p.mac_length, p.trailer_length]
  omega

theorem total_range : (((76 + payload.length : Nat) : Int)) < 4294967296 := by
  have fits := Lib.Struct.fits_of_pack (structPack_eq_ok.mp p.packTrailer) trivial
  exact fits.1.2

theorem unpack_fixed : FrameFixed.ofRecord (unpack frameFixedFormat (p.bytes.drop 8)) =
    ⟨recordVersion, opCode op, 0, walSeq, operationId, factId, factVersion, payload.length⟩ := by
  have tail : p.bytes.drop 8 = p.fixed ++ (payload ++ p.crc ++ p.mac ++ p.trailer) := by
    rw [bytes, ← p.head_length]
    simp only [List.append_assoc, List.drop_left']
  rw [tail, unpack_structPack p.packFixed ⟨p.idLength, trivial⟩]
  rfl

theorem trailer_eq : u32At p.bytes (p.bytes.length - 4) = p.bytes.length := by
  have before : (p.head ++ p.fixed ++ payload ++ p.crc ++ p.mac).length = p.bytes.length - 4 := by
    rw [p.length]
    simp only [List.length_append, p.head_length, p.fixed_length, p.crc_length, p.mac_length]
    omega
  rw [← before]
  conv_lhs => rw [bytes, ← List.append_nil p.trailer]
  rw [u32At_structPack p.packTrailer, p.length]

theorem take_body : p.bytes.take (52 + payload.length) = p.head ++ p.fixed ++ payload := by
  have len : (p.head ++ p.fixed ++ payload).length = 52 + payload.length := by
    simp only [List.length_append, p.head_length, p.fixed_length]
  rw [bytes, ← len, List.append_assoc _ p.mac, List.append_assoc _ p.crc]
  exact List.take_left' rfl

theorem crc_eq : u32At p.bytes (52 + payload.length) =
    (c.crc32 (p.bytes.take (52 + payload.length)) : Int) := by
  have len : (p.head ++ p.fixed ++ payload).length = 52 + payload.length := by
    simp only [List.length_append, p.head_length, p.fixed_length]
  rw [p.take_body, ← len]
  conv_lhs => rw [bytes, List.append_assoc, List.append_assoc]
  exact u32At_structPack p.packCrc _ _

theorem mac_eq : frameMac c key scopeId segmentId (p.bytes.take (56 + payload.length)) =
    .ok ((p.bytes.drop (56 + payload.length)).take tagBytes) := by
  have len : (p.head ++ p.fixed ++ payload ++ p.crc).length = 56 + payload.length := by
    simp only [List.length_append, p.head_length, p.fixed_length, p.crc_length]
    omega
  have body : p.bytes.take (56 + payload.length) = p.head ++ p.fixed ++ payload ++ p.crc := by
    rw [bytes, ← len, List.append_assoc _ p.mac]
    exact List.take_left' rfl
  have tail : p.bytes.drop (56 + payload.length) = p.mac ++ p.trailer := by
    rw [bytes, ← len, List.append_assoc _ p.mac]
    exact List.drop_left' rfl
  have mac : (p.mac ++ p.trailer).take tagBytes = p.mac := by
    have := p.mac_length
    exact List.take_left' this
  rw [body, tail, mac]
  exact p.packMac

theorem frameLength_append (rest : Bytes) (small : payload.length ≤ maxPayload) :
    frameLength (p.bytes ++ rest) = some p.bytes.length := by
  have range := p.total_range
  have below : 76 + payload.length < 2 ^ 32 := by
    have : (76 + payload.length : Nat) < 4294967296 := by exact_mod_cast range
    simpa using this
  have split : p.bytes ++ rest =
      p.head ++ (p.fixed ++ payload ++ p.crc ++ p.mac ++ p.trailer ++ rest) := by
    rw [bytes]
    simp only [List.append_assoc]
  have fields := unpack_structPack p.packHead trivial
    (p.fixed ++ payload ++ p.crc ++ p.mac ++ p.trailer ++ rest)
  have first : u32At (p.bytes ++ rest) 0 = ((76 + payload.length : Nat) : Int) := by
    rw [split]
    exact congrArg Prod.fst fields
  have second : u32At (p.bytes ++ rest) 4 = ((complement32 (76 + payload.length) : Nat) : Int) := by
    rw [split]
    exact congrArg (fun r => r.2.1) fields
  simp only [frameLength, first, second, Int.toNat_natCast, p.length, minFrame, maxFrame]
  unfold maxPayload at small
  exact if_pos ⟨trivial, by omega, by omega⟩

end FramePieces

/-- The conditions under which the parser calls an authentic frame canonical. -/
structure CanonicalFrame (f : Frame) : Prop where
  kind : payloadMatches f.op f.value
  version : 1 ≤ f.factVersion
  seqNonneg : 0 ≤ f.seq
  seqBelow : f.seq < maxSeq
  factNonneg : 0 ≤ f.factId
  factBelow : f.factId < maxFactId

def encodeOf (c : Crypto) (key : Bytes) (scopeId segmentId : Int) (f : Frame) :
    Except PyError Bytes := do
  let payload ← valuePayload f.value
  encodeFrame c key scopeId segmentId f.op f.seq f.operationId f.factId f.factVersion payload

private theorem encodeOf_pieces {c : Crypto} {key : Bytes} {scopeId segmentId : Int}
    (h : encodeOf c key scopeId segmentId f = .ok bytes) :
    ∃ payload, valuePayload f.value = .ok payload ∧
      ∃ p : FramePieces c key scopeId segmentId f.op f.seq f.operationId f.factId f.factVersion
        payload, bytes = p.bytes := by
  simp only [encodeOf, bind_eq_ok] at h
  obtain ⟨payload, packed, encoded⟩ := h
  exact ⟨payload, packed, framePieces encoded⟩

theorem frameTuple_encodeOf {c : Crypto} {key : Bytes} {scopeId segmentId : Int}
    (kind : payloadMatches f.op f.value) (h : encodeOf c key scopeId segmentId f = .ok bytes) :
    frameTuple bytes = some f := by
  obtain ⟨payload, packed, p, rfl⟩ := encodeOf_pieces h
  have value : (if f.op = .put then some (u32At p.bytes (8 + frameFixedSize)) else none) =
      f.value := by
    cases hv : f.value with
    | none =>
      have notPut : f.op ≠ .put := fun put => by simpa [hv] using kind.mp put
      rw [if_neg notPut]
    | some v =>
      rw [if_pos (kind.mpr (by simp [hv]))]
      have packedValue : structPack [.u32] (v, ()) = .ok payload := by
        simpa only [hv, valuePayload] using packed
      have before : (p.head ++ p.fixed).length = 8 + frameFixedSize := by
        simp only [List.length_append, p.head_length, p.fixed_length, frameFixedSize]
      have split : p.bytes = (p.head ++ p.fixed) ++ (payload ++ (p.crc ++ p.mac ++ p.trailer)) := by
        simp only [FramePieces.bytes, List.append_assoc]
      rw [← before, split, u32At_structPack packedValue]
  simp only [frameTuple, p.unpack_fixed, codeOp_opCode, Option.map_some, value]

theorem scanFrame_encodeOf {c : Crypto} {key : Bytes} {scopeId segmentId : Int}
    (canonical : CanonicalFrame f) (h : encodeOf c key scopeId segmentId f = .ok bytes) :
    scanFrame c key scopeId segmentId bytes f.seq = some f := by
  have tuple := frameTuple_encodeOf canonical.kind h
  obtain ⟨payload, packed, p, rfl⟩ := encodeOf_pieces h
  have len := valuePayload_length canonical.kind packed
  have canonicalOk : canonicalFrameOk
      ⟨recordVersion, opCode f.op, 0, f.seq, f.operationId, f.factId, f.factVersion,
        payload.length⟩ = true := by
    have version := canonical.version
    have seqNonneg := canonical.seqNonneg
    have seqBelow := canonical.seqBelow
    have factNonneg := canonical.factNonneg
    have factBelow := canonical.factBelow
    simp only [canonicalFrameOk, codeOp_opCode, len, decide_eq_true_eq]
    refine ⟨trivial, ?_, ?_, version, seqNonneg, seqBelow, factNonneg, factBelow⟩
    · intro put
      rw [if_pos put]
    · intro delete
      rw [if_neg (by simp [delete])]
      rfl
  have total : ((p.bytes.length : Nat) : Int) - minFrame = payload.length := by
    rw [p.length]
    simp only [minFrame]
    omega
  simp only [scanFrame, p.unpack_fixed, Int.toNat_natCast, frameFixedSize, total]
  rw [if_pos]
  · exact tuple
  · have crcOff : 8 + 44 + payload.length = 52 + payload.length := by omega
    rw [crcOff, show 52 + payload.length + 4 = 56 + payload.length by omega]
    exact ⟨p.trailer_eq, trivial, trivial, p.crc_eq.symm, p.mac_eq, trivial, canonicalOk⟩

private theorem opCode_fits (op : Op) : 0 ≤ opCode op ∧ opCode op < 256 ^ 1 := by
  cases op <;> decide

theorem valuePayload_ok (range : ∀ v ∈ value, 0 ≤ v ∧ v < 4294967296) :
    ∃ payload, valuePayload value = .ok payload ∧ payload.length ≤ 4 := by
  cases value with
  | none => exact ⟨[], rfl, by simp⟩
  | some v =>
    have fits : 0 ≤ v ∧ v < 256 ^ 4 := by
      have := range v rfl
      omega
    obtain ⟨b, packed⟩ := structPack_of_fits [.u32] (v, ()) ⟨fits, trivial⟩
    exact ⟨b, packed, le_of_eq (length_of_structPack packed)⟩

theorem contentDigest_ok (c : Crypto) (op : Op) {factId factVersion : Int}
    (fact : 0 ≤ factId ∧ factId < maxFactId) (version : 0 ≤ factVersion ∧ factVersion < 4294967296)
    (range : ∀ v ∈ value, 0 ≤ v ∧ v < 4294967296) :
    ∃ digest, contentDigest c op factId factVersion value = .ok digest := by
  obtain ⟨payload, packed, -⟩ := valuePayload_ok range
  have factFits : 0 ≤ factId ∧ factId < 256 ^ 8 := by
    unfold maxFactId at fact
    exact ⟨fact.1, by omega⟩
  have versionFits : 0 ≤ factVersion ∧ factVersion < 256 ^ 4 := by omega
  obtain ⟨fields, fieldsPacked⟩ := structPack_of_fits [.u8, .u64, .u32]
    (opCode op, factId, factVersion, ())
    ⟨opCode_fits op, factFits, versionFits, trivial⟩
  refine ⟨(c.sha256 (ascii "OPDIGEST" ++ fields ++ payload)).take 16, ?_⟩
  simp only [contentDigest, packed, fieldsPacked, ok_bind]
  rfl

theorem encodeOf_ok (c : Crypto) (key : Bytes) {scopeId segmentId : Int} (f : Frame)
    (scope : 0 ≤ scopeId ∧ scopeId < 4294967296) (segment : 0 ≤ segmentId ∧ segmentId < 4294967296)
    (seq : 0 ≤ f.seq ∧ f.seq < 18446744073709551616) (id : f.operationId.length = 16)
    (fact : 0 ≤ f.factId ∧ f.factId < maxFactId)
    (version : 0 ≤ f.factVersion ∧ f.factVersion < 4294967296)
    (range : ∀ v ∈ f.value, 0 ≤ v ∧ v < 4294967296) :
    ∃ bytes, encodeOf c key scopeId segmentId f = .ok bytes := by
  obtain ⟨payload, packed, short⟩ := valuePayload_ok range
  have payloadFits : 0 ≤ (payload.length : Int) ∧ (payload.length : Int) < 256 ^ 4 := by omega
  have factFits : 0 ≤ f.factId ∧ f.factId < 256 ^ 8 := by
    unfold maxFactId at fact
    exact ⟨fact.1, by omega⟩
  have versionFits : 0 ≤ f.factVersion ∧ f.factVersion < 256 ^ 4 := by omega
  have seqFits : 0 ≤ f.seq ∧ f.seq < 256 ^ 8 := by omega
  have scopeFits : 0 ≤ scopeId ∧ scopeId < 256 ^ 4 := by omega
  have segmentFits : 0 ≤ segmentId ∧ segmentId < 256 ^ 4 := by omega
  have recordFits : 0 ≤ recordVersion ∧ recordVersion < 256 ^ 2 := by decide
  have flagsFits : (0 : Int) ≤ 0 ∧ (0 : Int) < 256 ^ 1 := by decide
  obtain ⟨fixed, packFixed⟩ := structPack_of_fits frameFixedFormat
    (recordVersion, opCode f.op, 0, f.seq, f.operationId, f.factId, f.factVersion,
      (payload.length : Int), ())
    ⟨recordFits, opCode_fits f.op, flagsFits, seqFits, id, factFits, versionFits, payloadFits,
      trivial⟩
  have len : fixed.length = 44 := length_of_structPack packFixed
  have total : 8 + fixed.length + payload.length + 4 + tagBytes + 4 = 76 + payload.length := by
    rw [len]
    simp only [tagBytes]
    omega
  have totalFits : 0 ≤ ((76 + payload.length : Nat) : Int) ∧
      ((76 + payload.length : Nat) : Int) < 256 ^ 4 := by omega
  have complementFits : 0 ≤ ((complement32 (76 + payload.length) : Nat) : Int) ∧
      ((complement32 (76 + payload.length) : Nat) : Int) < 256 ^ 4 := by
    have : complement32 (76 + payload.length) < 2 ^ 32 :=
      Nat.xor_lt_two_pow (by omega) (by decide)
    omega
  obtain ⟨head, packHead⟩ := structPack_of_fits [.u32, .u32]
    (((76 + payload.length : Nat) : Int), ((complement32 (76 + payload.length) : Nat) : Int), ())
    ⟨totalFits, complementFits, trivial⟩
  obtain ⟨trailer, packTrailer⟩ := structPack_of_fits [.u32]
    (((76 + payload.length : Nat) : Int), ()) ⟨totalFits, trivial⟩
  have crcFits : 0 ≤ ((c.crc32 (head ++ fixed ++ payload) : Nat) : Int) ∧
      ((c.crc32 (head ++ fixed ++ payload) : Nat) : Int) < 256 ^ 4 := by
    have := c.crc32_lt (head ++ fixed ++ payload)
    omega
  obtain ⟨crc, packCrc⟩ := structPack_of_fits [.u32]
    (((c.crc32 (head ++ fixed ++ payload) : Nat) : Int), ()) ⟨crcFits, trivial⟩
  obtain ⟨ids, packIds⟩ := structPack_of_fits [.u32, .u32]
    (scopeId, segmentId, ()) ⟨scopeFits, segmentFits, trivial⟩
  have small : payload.length ≤ maxPayload := le_trans short (by decide)
  have mac : frameMac c key scopeId segmentId (head ++ fixed ++ payload ++ crc) =
      .ok (c.tag key (ascii "WALFRAME" ++ ids ++ (head ++ fixed ++ payload ++ crc))) := by
    simp only [frameMac, bind_eq_ok, pure_eq_ok]
    exact ⟨ids, packIds, rfl⟩
  rw [← total] at packHead packTrailer
  refine ⟨head ++ fixed ++ payload ++ crc ++
    c.tag key (ascii "WALFRAME" ++ ids ++ (head ++ fixed ++ payload ++ crc)) ++ trailer, ?_⟩
  simp only [encodeOf, encodeFrame, bind_eq_ok, require_eq_ok, pure_eq_ok]
  exact ⟨payload, packed, (), id, (), small, fixed, packFixed, head, packHead, crc, packCrc, _, mac,
    trailer, packTrailer, rfl⟩

theorem frameLength_bounds (h : frameLength rest = some n) :
    minFrame ≤ n ∧ n ≤ maxFrame ∧ u32At rest 0 = n := by
  simp only [frameLength] at h
  split at h
  · rename_i checks
    cases h
    refine ⟨checks.2.1, checks.2.2, ?_⟩
    exact (Int.toNat_of_nonneg (Int.natCast_nonneg _)).symm
  · cases h

private theorem u32At_eq_take (b : Bytes) (off : Nat) :
    u32At b off = (unpack [.u32] ((b.drop off).take 4)).1 := by
  have h := Lib.Struct.unpack_take [.u32] (b.drop off)
  exact (congrArg Prod.fst h).symm

private theorem u32At_append (off : Nat) (long : off + 4 ≤ b.length) (rest : Bytes) :
    u32At (b ++ rest) off = u32At b off := by
  have inside : off ≤ b.length := by omega
  have front : ((b ++ rest).drop off).take 4 = (b.drop off).take 4 := by
    rw [List.drop_append_of_le_length inside, List.take_append_of_le_length]
    simp only [List.length_drop]
    omega
  rw [u32At_eq_take, u32At_eq_take b, front]

theorem frameLength_append_right {frame : Bytes} (long : 8 ≤ frame.length) (rest : Bytes) :
    frameLength (frame ++ rest) = frameLength frame := by
  have first := u32At_append (b := frame) 0 (by omega) rest
  have second := u32At_append (b := frame) 4 (by omega) rest
  simp only [frameLength, first, second]

theorem take_ne_sealMagic (h : frameLength rest = some n) : rest.take 5 ≠ sealMagic := by
  intro magic
  obtain ⟨-, small, declared⟩ := frameLength_bounds h
  have four : rest.take 4 = sealMagic.take 4 := by
    rw [← magic, List.take_take]
    rfl
  have value : u32At rest 0 = u32At sealMagic 0 := by
    rw [u32At_eq_take, u32At_eq_take sealMagic, List.drop_zero, List.drop_zero, four]
  have large : u32At sealMagic 0 = 1095062359 := by decide
  rw [value, large] at declared
  unfold maxFrame at small
  omega

/-- Complete frames one after the other, numbered from a sequence on. -/
inductive Scans (c : Crypto) (key : Bytes) (scopeId segmentId : Int) :
    Int → Bytes → List Frame → Prop where
  | nil (seq : Int) : Scans c key scopeId segmentId seq [] []
  | cons {seq : Int} {frame rest : Bytes} {f : Frame} {fs : List Frame}
      (declared : frameLength frame = some frame.length)
      (accepted : scanFrame c key scopeId segmentId frame seq = some f)
      (tail : Scans c key scopeId segmentId (seq + 1) rest fs) :
      Scans c key scopeId segmentId seq (frame ++ rest) (f :: fs)

namespace Scans

variable {c : Crypto} {key : Bytes} {scopeId segmentId : Int}

theorem append {seq : Int} {b₁ b₂ : Bytes} {fs₁ fs₂ : List Frame}
    (front : Scans c key scopeId segmentId seq b₁ fs₁)
    (back : Scans c key scopeId segmentId (seq + fs₁.length) b₂ fs₂) :
    Scans c key scopeId segmentId seq (b₁ ++ b₂) (fs₁ ++ fs₂) := by
  induction front with
  | nil seq => simpa using back
  | cons declared accepted tail ih =>
    rw [List.append_assoc]
    refine cons declared accepted (ih ?_)
    simp only [List.length_cons, Nat.cast_add, Nat.cast_one] at back
    rwa [Int.add_right_comm, Int.add_assoc] at *

theorem encoded {f : Frame} {bytes : Bytes} (canonical : CanonicalFrame f)
    (h : encodeOf c key scopeId segmentId f = .ok bytes) :
    Scans c key scopeId segmentId f.seq bytes [f] := by
  have accepted := scanFrame_encodeOf canonical h
  obtain ⟨payload, packed, p, rfl⟩ := encodeOf_pieces h
  have len := valuePayload_length canonical.kind packed
  have small : payload.length ≤ maxPayload := by
    rw [len]
    split <;> decide
  have declared := p.frameLength_append [] small
  rw [List.append_nil] at declared
  have whole := cons declared accepted (Scans.nil (f.seq + 1))
  rwa [List.append_nil] at whole

end Scans

end ProofRay.Engine
