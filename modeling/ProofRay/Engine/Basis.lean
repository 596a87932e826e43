/- What every module of the engine shares: byte strings, the cryptographic
   primitives taken as parameters, the operations and the Python exceptions. -/

import ProofRay.Lib.Guard
import ProofRay.Lib.Struct

namespace ProofRay.Engine

export Lib.Struct (Bytes)
open Lib.Guard
open Lib.Struct (Field Record pack packMany unpack unpackMany Fits Exact size)

/-- The primitives of `hashlib`, `hmac` and `zlib` the engine calls.  Nothing is
assumed of them but the length of a digest and the range of a checksum. -/
structure Crypto where
  sha256 : Bytes → Bytes
  hmac : Bytes → Bytes → Bytes
  crc32 : Bytes → Nat
  sha256_length : ∀ b, (sha256 b).length = 32
  hmac_length : ∀ key b, (hmac key b).length = 32
  crc32_lt : ∀ b, crc32 b < 2 ^ 32

/-- `OP_PUT` and `OP_DELETE`. -/
inductive Op where
  | put
  | delete
  deriving DecidableEq, Repr

/-- The exceptions a modelled function can end with. -/
inductive PyError where
  | structError
  | valueError (message : String)
  | walError (message : String)
  | integrityError (message : String)
  | incompatibleError (message : String)
  | artifactError (message : String)
  | attributeError
  deriving DecidableEq, Repr

/-- `struct.pack`, with its exception. -/
def structPack (fs : List Field) (v : Record fs) : Except PyError Bytes :=
  orThrow (pack fs v) .structError

/-- `b"".join(struct.pack(..) for ..)`. -/
def structPackMany (fs : List Field) (vs : List (Record fs)) : Except PyError Bytes :=
  orThrow (packMany fs vs) .structError

variable {fs : List Field} {b : Bytes} {v : Record fs} {vs : List (Record fs)}

@[simp] theorem structPack_eq_ok : structPack fs v = .ok b ↔ pack fs v = some b := by
  simp [structPack]

theorem length_of_structPack (h : structPack fs v = .ok b) : b.length = size fs :=
  Lib.Struct.length_of_pack (structPack_eq_ok.mp h)

theorem unpack_structPack (h : structPack fs v = .ok b) (exact : Exact fs v) (rest : Bytes) :
    unpack fs (b ++ rest) = v := by
  have packed := structPack_eq_ok.mp h
  exact Lib.Struct.unpack_pack_append (Lib.Struct.fits_of_pack packed exact) packed rest

theorem fits_of_structPack (h : structPack fs v = .ok b) (exact : Exact fs v) : Fits fs v :=
  Lib.Struct.fits_of_pack (structPack_eq_ok.mp h) exact

/-- `struct.pack` of a record that fits succeeds. -/
theorem structPack_of_fits (fs : List Field) (v : Record fs) (h : Fits fs v) :
    ∃ b, structPack fs v = .ok b := by
  obtain ⟨b, packed⟩ := Lib.Struct.pack_of_fits h
  exact ⟨b, structPack_eq_ok.mpr packed⟩

@[simp] theorem structPackMany_eq_ok : structPackMany fs vs = .ok b ↔ packMany fs vs = some b := by
  simp [structPackMany]

theorem length_of_structPackMany (h : structPackMany fs vs = .ok b) :
    b.length = vs.length * size fs :=
  Lib.Struct.length_of_packMany (structPackMany_eq_ok.mp h)

theorem structPackMany_of_fits (fs : List Field) (vs : List (Record fs)) (h : ∀ v ∈ vs, Fits fs v) :
    ∃ b, structPackMany fs vs = .ok b := by
  obtain ⟨b, packed⟩ := Lib.Struct.packMany_of_fits h
  exact ⟨b, structPackMany_eq_ok.mpr packed⟩

theorem unpackMany_structPackMany (h : structPackMany fs vs = .ok b) (fits : ∀ v ∈ vs, Fits fs v)
    (rest : Bytes) : unpackMany fs vs.length (b ++ rest) = vs :=
  Lib.Struct.unpackMany_packMany_append fits (structPackMany_eq_ok.mp h) rest

def tagBytes : Nat := 16

/-- The ASCII bytes of a literal such as `b"HWL1"`. -/
def ascii (s : String) : Bytes := s.toList.map fun c => UInt8.ofNat c.toNat

def zeros (n : Nat) : Bytes := List.replicate n 0

@[simp] theorem length_zeros (n : Nat) : (zeros n).length = n := List.length_replicate

def Crypto.tag (c : Crypto) (key : Bytes) (data : Bytes) : Bytes := (c.hmac key data).take tagBytes

@[simp] theorem Crypto.length_tag (c : Crypto) (key data : Bytes) :
    (c.tag key data).length = tagBytes := by
  simp [Crypto.tag, c.hmac_length, tagBytes]

end ProofRay.Engine
