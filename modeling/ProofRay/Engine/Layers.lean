/- The layers of a base that are addressed by ordinal: the bulk values, the residual
   corrections and the tombstones (`horizon_bulk.py`, `residual_field.py`). -/

import ProofRay.Engine.Basis
import ProofRay.Lib.Dict
import ProofRay.Lib.SparseBytes

namespace ProofRay.Engine

open Lib (Dict SparseBytes)
open Lib.Bitmap (bitAt unpackBits packBits)
open Lib.Guard
open Lib.Struct (Field unpack unpackMany)

def rankBlock : Nat := 512

/-- `MAX_FACT_COUNT`. -/
def maxFactCount : Nat := 1 <<< 30

theorem eight_dvd_rankBlock : 8 ∣ rankBlock := by decide

theorem rankBlock_pos : 0 < rankBlock := by decide

/-- Bytes of a bitmap of `n` bits. -/
def bitmapLen (n : Nat) : Nat := (n + 7) / 8

/-- Samples of a rank directory over `n` bits. -/
def rankBlocks (n : Nat) : Nat := (n + rankBlock - 1) / rankBlock

/-- `numpy.frombuffer(.., dtype="<u4")`. -/
def readRanks (n : Nat) (b : Bytes) : List Nat := (unpackMany [.u32] n b).map fun r => r.1.toNat

def packRanks (ranks : List Nat) : Except PyError Bytes :=
  structPackMany [.u32] (ranks.map fun n => ((n : Int), ()))

theorem length_slice {b : Bytes} {off n : Nat} (inside : off + n ≤ b.length) :
    ((b.drop off).take n).length = n := by
  simp only [List.length_take, List.length_drop]
  omega

/-- `sorted(d)`. -/
def sortedKeys (d : Dict Nat Int) : List Nat := d.keys.insertionSort (· ≤ ·)

/-- One cell for each ordinal below `n`: its value in `d`, cut to a byte. -/
def cellsOf (n : Nat) (d : Dict Nat Int) : List (Option UInt8) :=
  (List.range n).map fun o => (d.get o).map fun v => UInt8.ofNat (v % 256).toNat

/-- One flag for each ordinal below `n`. -/
def flagsOf (n : Nat) (ordinals : List Nat) : List Bool :=
  (List.range n).map fun o => o ∈ ordinals

def bulkMagic : Bytes := ascii "HBK1"
def bulkFormatVersion : Int := 1
def valueKindU8 : Int := 0

/-- `<4sHHIQIII`: magic, version, value kind, scope, generation, fact count, support,
rank block. -/
abbrev bulkHeaderFormat : List Field := [.bytes 4, .u16, .u16, .u32, .u64, .u32, .u32, .u32]

def bulkHeaderSize : Nat := 32

example : bulkHeaderSize = Lib.Struct.size bulkHeaderFormat := by decide

/-- An open bulk snapshot: one byte for each ordinal of the support. -/
structure BulkSnapshot where
  blob : Bytes
  scopeId : Int
  generationId : Int
  cells : SparseBytes rankBlock

inductive BulkRead where
  | value (v : Int)
  | absent
  | outOfRange
  deriving DecidableEq, Repr

def bulkFault : SparseBytes.Fault → PyError
  | .popcount => .integrityError "popcount do bitmap != support_count"
  | .padding => .integrityError "bits de padding do bulk não nulos"
  | .directory => .integrityError "rank_directory do bulk inconsistente"

namespace BulkSnapshot

def factCount (b : BulkSnapshot) : Nat := b.cells.size

def mac (c : Crypto) (key header bitmap ranks payload : Bytes) : Bytes :=
  c.tag key (ascii "BULKSNAP" ++ header ++ bitmap ++ ranks ++ payload)

/-- `_parse` and `_verify_and_validate`. -/
def init (c : Crypto) (blob key : Bytes) : Except PyError BulkSnapshot := do
  require (bulkHeaderSize ≤ blob.length) (.integrityError "blob de bulk menor que o header")
  let (magic, ver, kind, scope, gen, factCount, support, block, _) := unpack bulkHeaderFormat blob
  require (magic = bulkMagic) (.integrityError "magic de bulk inválido")
  require (ver = bulkFormatVersion)
    (.incompatibleError s!"format_version de bulk não suportada: {ver}")
  require (kind = valueKindU8) (.incompatibleError s!"value_kind não suportado: {kind}")
  require (block = rankBlock) (.integrityError "rank_block inesperado")
  require (factCount ≤ maxFactCount ∧ support ≤ factCount)
    (.integrityError "limites de bulk violados")
  let n := factCount.toNat
  let rankOff := bulkHeaderSize + bitmapLen n
  let payloadOff := rankOff + rankBlocks n * 4
  let macOff := payloadOff + support.toNat
  if len : blob.length = macOff + tagBytes then do
    let bitmap := (blob.drop bulkHeaderSize).take (bitmapLen n)
    let ranks := (blob.drop rankOff).take (rankBlocks n * 4)
    let payload := (blob.drop payloadOff).take support.toNat
    require (mac c key (blob.take bulkHeaderSize) bitmap ranks payload = blob.drop macOff)
      (.integrityError "MAC de bulk inválido")
    let width : bitmap.length = bitmapLen n := length_slice (by omega)
    match SparseBytes.validate rankBlock n bitmap (readRanks (rankBlocks n) ranks) payload width with
    | .error fault => .error (bulkFault fault)
    | .ok cells => .ok ⟨blob, scope, gen, cells⟩
  else
    .error (.integrityError
      s!"comprimento de bulk não canônico: {blob.length} != {macOff + tagBytes}")

/-- The ordinals and the values `build` accepts. -/
def checkValues (factCount : Nat) (values : Dict Nat Int) : List Nat → Except PyError Unit
  | [] => .ok ()
  | o :: os => do
    require (o < factCount) (.integrityError s!"ordinal fora de [0, fact_count): {o}")
    require (∀ v ∈ values.get o, 0 ≤ v ∧ v ≤ 255)
      (.integrityError s!"valor fora de u8: {(values.get o).getD 0}")
    checkValues factCount values os

def build (c : Crypto) (factCount : Nat) (values : Dict Nat Int) (scopeId generationId : Int)
    (key : Bytes) : Except PyError BulkSnapshot := do
  require (factCount ≤ maxFactCount) (.integrityError "fact_count inválido")
  checkValues factCount values (sortedKeys values)
  let sparse := SparseBytes.ofCells rankBlock (cellsOf factCount values)
  let header ← structPack bulkHeaderFormat
    (bulkMagic, bulkFormatVersion, valueKindU8, scopeId, generationId, (factCount : Int),
      (sparse.payload.length : Int), (rankBlock : Int), ())
  let ranks ← packRanks sparse.directory
  init c (header ++ sparse.bitmap ++ ranks ++ sparse.payload ++
    mac c key header sparse.bitmap ranks sparse.payload) key

def lookup (b : BulkSnapshot) (ordinal : Nat) : BulkRead :=
  if b.factCount ≤ ordinal then .outOfRange
  else
    match b.cells.get? ordinal with
    | none => .absent
    | some v => .value v.toNat

def supportOrdinals (b : BulkSnapshot) : Finset Nat := b.cells.support

end BulkSnapshot

def residualMagic : Bytes := ascii "HRF1"
def formatVersion : Int := 1
def payloadRawU8 : Int := 0

/-- `<4sHIIIIIB`: magic, version, scope, epoch, fact count, page size, corrections,
payload kind. -/
abbrev residualHeaderFormat : List Field :=
  [.bytes 4, .u16, .u32, .u32, .u32, .u32, .u32, .u8]

def residualHeaderSize : Nat := 27

example : residualHeaderSize = Lib.Struct.size residualHeaderFormat := by decide

/-- The answers of a residual field, and those `resolve` adds to them. -/
inductive Resolution where
  | correct (value : Int)
  | noResidual
  | deleted
  | fallback
  | abstainIntegrity
  | abstainScope
  | abstainEpoch
  | outOfRange
  deriving DecidableEq, Repr

/-- An open residual field.  The pages of its payload are checked one by one, when a
lookup reaches them, with the key it was opened with. -/
structure ResidualField where
  key : Bytes
  blob : Bytes
  scopeId : Int
  bulkEpoch : Int
  pageSize : Nat
  pageTags : Bytes
  cells : SparseBytes rankBlock

def residualFault : SparseBytes.Fault → PyError
  | .popcount => .integrityError "popcount do bitmap != n_corrections"
  | .padding => .integrityError "bits de padding do bitmap não nulos"
  | .directory => .integrityError "rank_directory inconsistente com o bitmap"

namespace ResidualField

def factCount (f : ResidualField) : Nat := f.cells.size

/-- Pages of a payload of `n` bytes. -/
def pageCount (n pageSize : Nat) : Nat := (n + pageSize - 1) / pageSize

def pageMac (c : Crypto) (key : Bytes) (scope epoch pageIndex : Int) (page : Bytes) :
    Except PyError Bytes := do
  let head ← structPack [.u16, .u32, .u32, .u32] (formatVersion, scope, epoch, pageIndex, ())
  return c.tag key (head ++ page)

def manifestMac (c : Crypto) (key header bitmap ranks pageTags : Bytes) : Bytes :=
  c.tag key (ascii "MANIFEST" ++ header ++ bitmap ++ ranks ++ pageTags)

def init (c : Crypto) (blob key : Bytes) : Except PyError ResidualField := do
  require (residualHeaderSize ≤ blob.length) (.integrityError "blob menor que o header")
  let (magic, ver, scope, epoch, factCount, pageSize, corrections, kind, _) :=
    unpack residualHeaderFormat blob
  require (magic = residualMagic) (.integrityError "magic inválido")
  require (ver = formatVersion) (.incompatibleError s!"format_version desconhecida: {ver}")
  require (kind = payloadRawU8) (.incompatibleError s!"payload_kind desconhecido: {kind}")
  require (0 < pageSize) (.integrityError "page_size inválido (<=0)")
  require (corrections ≤ factCount) (.integrityError "n_corrections > fact_count")
  let n := factCount.toNat
  let rankOff := residualHeaderSize + bitmapLen n
  let payloadOff := rankOff + rankBlocks n * 4
  let tagsOff := payloadOff + corrections.toNat
  let manifestOff := tagsOff + pageCount corrections.toNat pageSize.toNat * tagBytes
  if len : blob.length = manifestOff + tagBytes then do
    let bitmap := (blob.drop residualHeaderSize).take (bitmapLen n)
    let ranks := (blob.drop rankOff).take (rankBlocks n * 4)
    let payload := (blob.drop payloadOff).take corrections.toNat
    let pageTags := (blob.drop tagsOff).take (manifestOff - tagsOff)
    require (manifestMac c key (blob.take residualHeaderSize) bitmap ranks pageTags =
      blob.drop manifestOff) (.integrityError "MAC de manifesto inválido")
    let width : bitmap.length = bitmapLen n := length_slice (by omega)
    match SparseBytes.validate rankBlock n bitmap (readRanks (rankBlocks n) ranks) payload width with
    | .error fault => .error (residualFault fault)
    | .ok cells => .ok ⟨key, blob, scope, epoch, pageSize.toNat, pageTags, cells⟩
  else
    .error (.integrityError s!"comprimento não canônico: {blob.length} != {manifestOff + tagBytes}")

/-- The tags of the pages of a payload, from page `index` on. -/
def pageTagsOf (c : Crypto) (key : Bytes) (scope epoch : Int) (pageSize : Nat) :
    Nat → Nat → Bytes → Except PyError Bytes
  | 0, _, _ => .ok []
  | n + 1, index, payload => do
    let tag ← pageMac c key scope epoch index (payload.take pageSize)
    let tags ← pageTagsOf c key scope epoch pageSize n (index + 1) (payload.drop pageSize)
    return tag ++ tags

def checkOrdinals (factCount : Nat) : List Nat → Except PyError Unit
  | [] => .ok ()
  | o :: os => do
    require (o < factCount) (.integrityError s!"ordinal fora de [0, fact_count): {o}")
    checkOrdinals factCount os

def build (c : Crypto) (factCount : Nat) (corrections : Dict Nat Int) (pageSize : Nat)
    (scopeId bulkEpoch : Int) (key : Bytes) : Except PyError ResidualField := do
  checkOrdinals factCount (sortedKeys corrections)
  let sparse := SparseBytes.ofCells rankBlock (cellsOf factCount corrections)
  let header ← structPack residualHeaderFormat
    (residualMagic, formatVersion, scopeId, bulkEpoch, (factCount : Int), (pageSize : Int),
      (sparse.payload.length : Int), payloadRawU8, ())
  require (pageSize ≠ 0) (.valueError "range() arg 3 must not be zero")
  let ranks ← packRanks sparse.directory
  let pageTags ← pageTagsOf c key scopeId bulkEpoch pageSize
    (pageCount sparse.payload.length pageSize) 0 sparse.payload
  init c (header ++ sparse.bitmap ++ ranks ++ sparse.payload ++ pageTags ++
    manifestMac c key header sparse.bitmap ranks pageTags) key

/-- `verify_page`; an index the format cannot hold fails like a wrong tag. -/
def verifyPage (c : Crypto) (f : ResidualField) (pageIndex : Nat) : Bool :=
  let page := (f.cells.payload.drop (pageIndex * f.pageSize)).take f.pageSize
  match pageMac c f.key f.scopeId f.bulkEpoch pageIndex page with
  | .error _ => false
  | .ok expected => expected = (f.pageTags.drop (pageIndex * tagBytes)).take tagBytes

/-- `safe_lookup`: the bit, the rank, then the page that holds the value. -/
def lookup (c : Crypto) (f : ResidualField) (ordinal : Nat) (scopeId bulkEpoch : Int) :
    Resolution :=
  if scopeId ≠ f.scopeId then .abstainScope
  else if bulkEpoch ≠ f.bulkEpoch then .abstainEpoch
  else if f.factCount ≤ ordinal then .outOfRange
  else if ¬ bitAt f.cells.bitmap ordinal then .noResidual
  else
    match f.cells.payload[f.cells.rank ordinal]? with
    | none => .abstainIntegrity
    | some v =>
      if verifyPage c f (f.cells.rank ordinal / f.pageSize) then .correct v.toNat
      else .abstainIntegrity

def supportOrdinals (f : ResidualField) : Finset Nat := f.cells.support

end ResidualField

def tombMagic : Bytes := ascii "HTB1"

/-- `<4sHIII`: magic, version, scope, epoch, fact count. -/
abbrev tombHeaderFormat : List Field := [.bytes 4, .u16, .u32, .u32, .u32]

def tombHeaderSize : Nat := 18

example : tombHeaderSize = Lib.Struct.size tombHeaderFormat := by decide

/-- The authenticated set of the deleted ordinals of one scope and epoch. -/
structure TombstoneLayer where
  blob : Bytes
  scopeId : Int
  bulkEpoch : Int
  factCount : Nat
  bitmap : Bytes
  bitmap_length : bitmap.length = bitmapLen factCount
  padding : ((unpackBits bitmap).drop factCount).count true = 0

namespace TombstoneLayer

def mac (c : Crypto) (key header bitmap : Bytes) : Bytes :=
  c.tag key (ascii "TOMBSTONE" ++ header ++ bitmap)

def init (c : Crypto) (blob key : Bytes) : Except PyError TombstoneLayer := do
  require (tombHeaderSize ≤ blob.length) (.integrityError "blob de tombstone menor que o header")
  let (magic, ver, scope, epoch, factCount, _) := unpack tombHeaderFormat blob
  require (magic = tombMagic) (.integrityError "magic de tombstone inválido")
  require (ver = formatVersion)
    (.incompatibleError s!"format_version de tombstone desconhecida: {ver}")
  let n := factCount.toNat
  let tagOff := tombHeaderSize + bitmapLen n
  if len : blob.length = tagOff + tagBytes then do
    let bitmap := (blob.drop tombHeaderSize).take (bitmapLen n)
    require (mac c key (blob.take tombHeaderSize) bitmap = blob.drop tagOff)
      (.integrityError "MAC de tombstone inválido")
    let width : bitmap.length = bitmapLen n := length_slice (by omega)
    if padding : ((unpackBits bitmap).drop n).count true = 0 then
      .ok ⟨blob, scope, epoch, n, bitmap, width, padding⟩
    else .error (.integrityError "bits de padding do tombstone não nulos")
  else
    .error (.integrityError
      s!"comprimento de tombstone não canônico: {blob.length} != {tagOff + tagBytes}")

def checkOrdinals (factCount : Nat) : List Nat → Except PyError Unit
  | [] => .ok ()
  | o :: os => do
    require (o < factCount)
      (.integrityError s!"ordinal de tombstone fora de [0, fact_count): {o}")
    checkOrdinals factCount os

def build (c : Crypto) (factCount : Nat) (deleted : List Nat) (scopeId bulkEpoch : Int)
    (key : Bytes) : Except PyError TombstoneLayer := do
  checkOrdinals factCount deleted
  let bitmap := packBits (flagsOf factCount deleted)
  let header ← structPack tombHeaderFormat
    (tombMagic, formatVersion, scopeId, bulkEpoch, (factCount : Int), ())
  init c (header ++ bitmap ++ mac c key header bitmap) key

def isDeleted (t : TombstoneLayer) (ordinal : Nat) : Bool :=
  ordinal < t.factCount ∧ bitAt t.bitmap ordinal

def supportOrdinals (t : TombstoneLayer) : Finset Nat :=
  (Finset.range t.factCount).filter fun i => bitAt t.bitmap i = true

end TombstoneLayer

/-- `OpenResult`: an absence the manifest allows is told apart from one it does not, and
from a layer that cannot be read. -/
inductive OpenTombstone where
  | absentAllowed
  | requiredMissing
  | incompatible
  | corrupt
  | valid (layer : TombstoneLayer)

def openTombstone (c : Crypto) (blob : Option Bytes) (key : Bytes) (required : Bool) :
    OpenTombstone :=
  match blob with
  | none => if required then .requiredMissing else .absentAllowed
  | some blob =>
    match TombstoneLayer.init c blob key with
    | .ok layer => .valid layer
    | .error (.incompatibleError _) => .incompatible
    | .error _ => .corrupt

def resolveField (c : Crypto) (field : Option ResidualField) (ordinal : Nat)
    (scopeId bulkEpoch : Int) : Resolution :=
  match field with
  | none => .fallback
  | some field => field.lookup c ordinal scopeId bulkEpoch

def resolve (c : Crypto) (field : Option ResidualField) (tombstone : OpenTombstone)
    (ordinal : Nat) (scopeId bulkEpoch : Int) : Resolution :=
  match tombstone with
  | .corrupt | .incompatible | .requiredMissing => .abstainIntegrity
  | .absentAllowed => resolveField c field ordinal scopeId bulkEpoch
  | .valid layer =>
    if layer.scopeId ≠ scopeId then .abstainScope
    else if layer.bulkEpoch ≠ bulkEpoch then .abstainEpoch
    else if layer.isDeleted ordinal then .deleted
    else resolveField c field ordinal scopeId bulkEpoch

end ProofRay.Engine
