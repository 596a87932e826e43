/- The blobs of the layers addressed by ordinal: the constructors accept one blob of each value
   (`horizon_bulk.py`, `residual_field.py`). -/

import ProofRay.Engine.Layers

namespace ProofRay.Engine

open Lib (SparseBytes)
open Lib.Guard
open Lib.Struct (Field Record unpack unpackMany)

private theorem positive_u32 : ∀ f ∈ [Field.u32], 0 < f.width := by decide

private theorem size_u32 : Lib.Struct.size [.u32] = 4 := rfl

private theorem packRanks_eq (ranks : List Nat) :
    packRanks ranks = structPackMany [.u32] (ranks.map fun n : Nat => ((n : Int), ())) := by
  rw [packRanks]
  congr 1
  induction ranks with
  | nil => rfl
  | cons n ranks ih => simpa using ih

variable {ranks : List Nat} {n : Nat}

theorem length_packRanks {b : Bytes} (h : packRanks ranks = .ok b) :
    b.length = ranks.length * 4 := by
  rw [packRanks_eq] at h
  have len := length_of_structPackMany h
  rwa [List.length_map, size_u32] at len

theorem packRanks_readRanks {b : Bytes} (len : b.length = n * 4) :
    packRanks (readRanks n b) = .ok b := by
  have room : n * Lib.Struct.size [.u32] ≤ b.length := by rw [size_u32, len]
  have same : (readRanks n b).map (fun r : Nat => ((r : Int), ())) = unpackMany [.u32] n b := by
    rw [readRanks, List.map_map]
    apply List.map_congr_left (g := id) _ |>.trans (List.map_id _)
    intro r member
    have fits := Lib.Struct.fits_of_mem_unpackMany positive_u32 room member
    have nonneg : 0 ≤ r.1 := fits.1.1
    show (((r.1.toNat : Nat) : Int), ()) = r
    rw [Int.toNat_of_nonneg nonneg]
  have packed := Lib.Struct.packMany_unpackMany positive_u32 room
  rw [size_u32, ← len, List.take_length] at packed
  rw [packRanks_eq, same, structPackMany_eq_ok, packed]

theorem readRanks_packRanks {b : Bytes} (h : packRanks ranks = .ok b) :
    readRanks ranks.length b = ranks := by
  rw [packRanks_eq] at h
  have fits : ∀ v ∈ ranks.map (fun n : Nat => ((n : Int), ())),
      Lib.Struct.Fits [.u32] v := by
    apply Lib.Struct.fits_of_packMany (structPackMany_eq_ok.mp h)
    intro v member
    obtain ⟨n, -, rfl⟩ := List.mem_map.mp member
    trivial
  have read := unpackMany_structPackMany h fits []
  rw [List.append_nil, List.length_map] at read
  rw [readRanks, read, List.map_map]
  apply List.map_id''
  intro r
  exact Int.toNat_natCast r

theorem packRanks_of_small (ranks : List Nat) (small : ∀ r ∈ ranks, r < 2 ^ 32) :
    ∃ b, packRanks ranks = .ok b := by
  rw [packRanks_eq]
  apply structPackMany_of_fits
  intro v member
  obtain ⟨n, inside, rfl⟩ := List.mem_map.mp member
  have bound : (n : Int) < 256 ^ 4 := by
    have := small n inside
    omega
  exact ⟨⟨Int.natCast_nonneg n, bound⟩, trivial⟩

theorem validate_readRanks {bitmap ranks payload : Bytes} {width : bitmap.length = (n + 7) / 8}
    (room : ranks.length = rankBlocks n * 4) {s : SparseBytes rankBlock} :
    SparseBytes.validate rankBlock n bitmap (readRanks (rankBlocks n) ranks) payload width = .ok s ↔
      s.size = n ∧ s.bitmap = bitmap ∧ packRanks s.directory = .ok ranks ∧ s.payload = payload := by
  rw [SparseBytes.validate_eq_ok]
  constructor
  · rintro ⟨size, same, directory, same'⟩
    exact ⟨size, same, by rw [directory, packRanks_readRanks room], same'⟩
  · rintro ⟨size, same, sampled, same'⟩
    have blocks : rankBlocks n = s.directory.length := by
      rw [s.length_directory, size]
      rfl
    exact ⟨size, same, by rw [blocks, readRanks_packRanks sampled], same'⟩

section Parts

variable {blob p q r s rest : Bytes} {i j k l : Nat}

private theorem parts_of_append (first : p.length = i) (second : q.length = j)
    (third : r.length = k) (fourth : s.length = l) (whole : blob = p ++ q ++ r ++ s ++ rest) :
    blob.take i = p ∧ (blob.drop i).take j = q ∧ (blob.drop (i + j)).take k = r ∧
      (blob.drop (i + j + k)).take l = s ∧ blob.drop (i + j + k + l) = rest := by
  subst whole first second third fourth
  simp only [← List.drop_drop, List.append_assoc, List.drop_left, List.take_left, and_self]

private theorem append_of_parts (i j k l : Nat) (blob : Bytes) :
    blob = blob.take i ++ (blob.drop i).take j ++ (blob.drop (i + j)).take k ++
      (blob.drop (i + j + k)).take l ++ blob.drop (i + j + k + l) := by
  rw [← List.take_add, ← List.take_add, ← List.take_add, List.take_append_drop]

end Parts

namespace BulkSnapshot

def headerOf (b : BulkSnapshot) : Record bulkHeaderFormat :=
  (bulkMagic, bulkFormatVersion, valueKindU8, b.scopeId, b.generationId, (b.factCount : Int),
    (b.cells.payload.length : Int), (rankBlock : Int), ())

variable {c : Crypto} {blob key : Bytes} {b : BulkSnapshot}

/-- A blob of the canonical form: header, bitmap, directory and payload, one after the
other, and their tag. -/
def Canonical (c : Crypto) (key : Bytes) (b : BulkSnapshot) : Prop :=
  b.factCount ≤ maxFactCount ∧ ∃ header ranks,
    structPack bulkHeaderFormat b.headerOf = .ok header ∧
    packRanks b.cells.directory = .ok ranks ∧
    b.blob = header ++ b.cells.bitmap ++ ranks ++ b.cells.payload ++
      mac c key header b.cells.bitmap ranks b.cells.payload

private theorem canonical_of_init (opened : init c blob key = .ok b) :
    b.blob = blob ∧ Canonical c key b := by
  simp only [init, bind_eq_ok, require_eq_ok] at opened
  obtain ⟨-, long, opened⟩ := opened
  have long : Lib.Struct.size bulkHeaderFormat ≤ blob.length := long
  have positive : ∀ f ∈ bulkHeaderFormat, 0 < f.width := by decide
  have fits := Lib.Struct.fits_unpack (b := blob) long positive
  have packed := Lib.Struct.pack_unpack (b := blob) long positive
  rcases fields : unpack bulkHeaderFormat blob with
    ⟨magic, ver, kind, scope, gen, factCount, support, block, ⟨⟩⟩
  rw [fields] at opened fits packed
  dsimp only at opened
  obtain ⟨-, rfl, -, rfl, -, rfl, -, rfl, -, ⟨few, within⟩, opened⟩ := opened
  have nonneg : 0 ≤ factCount := fits.2.2.2.2.2.1.1
  have nonneg' : 0 ≤ support := fits.2.2.2.2.2.2.1.1
  split at opened
  · rename_i len
    simp only [bind_eq_ok, require_eq_ok] at opened
    obtain ⟨-, tagged, opened⟩ := opened
    split at opened
    · cases opened
    · rename_i cells valid
      cases opened
      have room : ((blob.drop (bulkHeaderSize + bitmapLen factCount.toNat)).take
          (rankBlocks factCount.toNat * 4)).length = rankBlocks factCount.toNat * 4 :=
        length_slice (by omega)
      obtain ⟨size, bitmap, sampled, payload⟩ := (validate_readRanks room).mp valid
      have supported : (cells.payload.length : Int) = support := by
        rw [payload, length_slice (by omega), Int.toNat_of_nonneg nonneg']
      have counted : (cells.size : Int) = factCount := by
        rw [size, Int.toNat_of_nonneg nonneg]
      refine ⟨rfl, ?_, blob.take bulkHeaderSize,
        (blob.drop (bulkHeaderSize + bitmapLen factCount.toNat)).take
          (rankBlocks factCount.toNat * 4), ?_, ?_, ?_⟩
      · show cells.size ≤ maxFactCount
        rw [size]
        exact Int.toNat_le.mpr few
      · show structPack bulkHeaderFormat (bulkMagic, bulkFormatVersion, valueKindU8, scope, gen,
          (cells.size : Int), (cells.payload.length : Int), (rankBlock : Int), ()) = _
        rw [structPack_eq_ok, supported, counted]
        exact packed
      · exact sampled
      · simp only [bitmap, payload]
        rw [tagged]
        exact append_of_parts _ _ _ _ blob
  · cases opened

theorem init_of_canonical (canonical : Canonical c key b) : init c b.blob key = .ok b := by
  obtain ⟨few, header, ranks, packed, sampled, whole⟩ := canonical
  have headerLen : header.length = bulkHeaderSize := length_of_structPack packed
  have ranksLen : ranks.length = rankBlocks b.factCount * 4 := by
    rw [length_packRanks sampled, b.cells.length_directory]
    rfl
  have exact : Lib.Struct.Exact bulkHeaderFormat b.headerOf :=
    ⟨(by decide +kernel : bulkMagic.length = 4), trivial⟩
  have read : unpack bulkHeaderFormat b.blob = b.headerOf := by
    rw [whole]
    simp only [List.append_assoc]
    exact unpack_structPack packed exact _
  have bitmapWidth : b.cells.bitmap.length = bitmapLen b.factCount := b.cells.bitmap_length
  obtain ⟨front, bitmap, sampledAt, payload, tag⟩ :=
    parts_of_append headerLen bitmapWidth ranksLen rfl whole
  have len : b.blob.length = bulkHeaderSize + bitmapLen b.factCount +
      rankBlocks b.factCount * 4 + b.cells.payload.length + tagBytes := by
    rw [whole]
    simp only [List.length_append, headerLen, ranksLen, mac, Crypto.length_tag, bitmapWidth]
  have within : b.cells.payload.length ≤ b.factCount := b.cells.length_payload_le
  simp only [init, bind_eq_ok, require_eq_ok, read, headerOf, Int.toNat_natCast, exists_const,
    true_and]
  refine ⟨by omega, ⟨Int.ofNat_le.mpr few, Int.ofNat_le.mpr within⟩, ?_⟩
  rw [dif_pos len]
  simp only [bind_eq_ok, require_eq_ok, exists_const]
  refine ⟨?_, ?_⟩
  · rw [front, bitmap, sampledAt, payload, tag]
  · have width : ((b.blob.drop bulkHeaderSize).take (bitmapLen b.factCount)).length =
        (b.cells.size + 7) / 8 := by rw [bitmap, b.cells.bitmap_length]
    have valid := (@validate_readRanks _ _ _ _ width (sampledAt.symm ▸ ranksLen) b.cells).mpr
      ⟨rfl, bitmap.symm, sampledAt.symm ▸ sampled, payload.symm⟩
    split
    · rename_i failed
      cases valid.symm.trans failed
    · rename_i cells found
      cases valid.symm.trans found
      rfl

theorem init_eq_ok : init c blob key = .ok b ↔ b.blob = blob ∧ Canonical c key b := by
  constructor
  · exact canonical_of_init
  · rintro ⟨rfl, canonical⟩
    exact init_of_canonical canonical

end BulkSnapshot

namespace ResidualField

def headerOf (f : ResidualField) : Record residualHeaderFormat :=
  (residualMagic, formatVersion, f.scopeId, f.bulkEpoch, (f.factCount : Int), (f.pageSize : Int),
    (f.cells.payload.length : Int), payloadRawU8, ())

variable {c : Crypto} {blob key : Bytes} {f : ResidualField}

/-- A blob of the canonical form: header, bitmap, directory, payload and page tags, one
after the other, and the tag of all of them but the payload. -/
def Canonical (c : Crypto) (f : ResidualField) : Prop :=
  0 < f.pageSize ∧
    f.pageTags.length = pageCount f.cells.payload.length f.pageSize * tagBytes ∧
    ∃ header ranks, structPack residualHeaderFormat f.headerOf = .ok header ∧
      packRanks f.cells.directory = .ok ranks ∧
      f.blob = header ++ f.cells.bitmap ++ ranks ++ f.cells.payload ++
        (f.pageTags ++ manifestMac c f.key header f.cells.bitmap ranks f.pageTags)

private theorem canonical_of_init (opened : init c blob key = .ok f) :
    f.key = key ∧ f.blob = blob ∧ Canonical c f := by
  simp only [init, bind_eq_ok, require_eq_ok] at opened
  obtain ⟨-, long, opened⟩ := opened
  have long : Lib.Struct.size residualHeaderFormat ≤ blob.length := long
  have positive : ∀ f ∈ residualHeaderFormat, 0 < f.width := by decide
  have fits := Lib.Struct.fits_unpack (b := blob) long positive
  have packed := Lib.Struct.pack_unpack (b := blob) long positive
  rcases fields : unpack residualHeaderFormat blob with
    ⟨magic, ver, scope, epoch, factCount, pageSize, corrections, kind, ⟨⟩⟩
  rw [fields] at opened fits packed
  dsimp only at opened
  obtain ⟨-, rfl, -, rfl, -, rfl, -, paged, -, within, opened⟩ := opened
  have nonneg : 0 ≤ factCount := fits.2.2.2.2.1.1
  have nonneg' : 0 ≤ pageSize := fits.2.2.2.2.2.1.1
  have nonneg'' : 0 ≤ corrections := fits.2.2.2.2.2.2.1.1
  split at opened
  · rename_i len
    simp only [bind_eq_ok, require_eq_ok] at opened
    obtain ⟨-, tagged, opened⟩ := opened
    split at opened
    · cases opened
    · rename_i cells valid
      cases opened
      have room : ((blob.drop (residualHeaderSize + bitmapLen factCount.toNat)).take
          (rankBlocks factCount.toNat * 4)).length = rankBlocks factCount.toNat * 4 :=
        length_slice (by omega)
      obtain ⟨size, bitmap, sampled, payload⟩ := (validate_readRanks room).mp valid
      have supported : cells.payload.length = corrections.toNat := by
        rw [payload, length_slice (by omega)]
      have counted : (cells.payload.length : Int) = corrections := by
        rw [supported, Int.toNat_of_nonneg nonneg'']
      have sized : (cells.size : Int) = factCount := by
        rw [size, Int.toNat_of_nonneg nonneg]
      refine ⟨rfl, rfl, ?_, ?_, blob.take residualHeaderSize,
        (blob.drop (residualHeaderSize + bitmapLen factCount.toNat)).take
          (rankBlocks factCount.toNat * 4), ?_, ?_, ?_⟩
      · exact Int.lt_toNat.mpr paged
      · show ((blob.drop _).take _).length =
          pageCount cells.payload.length pageSize.toNat * tagBytes
        rw [length_slice (by omega), supported]
        omega
      · show structPack residualHeaderFormat (residualMagic, formatVersion, scope, epoch,
          (cells.size : Int), (pageSize.toNat : Int), (cells.payload.length : Int),
          payloadRawU8, ()) = _
        rw [structPack_eq_ok, counted, sized, Int.toNat_of_nonneg nonneg']
        exact packed
      · exact sampled
      · simp only [bitmap, payload]
        rw [tagged]
        have whole := append_of_parts residualHeaderSize (bitmapLen factCount.toNat)
          (rankBlocks factCount.toNat * 4) corrections.toNat blob
        generalize residualHeaderSize + bitmapLen factCount.toNat + rankBlocks factCount.toNat * 4 +
          corrections.toNat = tagsOff at whole ⊢
        generalize pageCount corrections.toNat pageSize.toNat * tagBytes = n
        have tail := List.take_append_drop n (blob.drop tagsOff)
        rw [List.drop_drop] at tail
        rw [Nat.add_sub_cancel_left, tail]
        exact whole
  · cases opened

theorem init_of_canonical (canonical : Canonical c f) : init c f.blob f.key = .ok f := by
  obtain ⟨paged, tagsLen, header, ranks, packed, sampled, whole⟩ := canonical
  have headerLen : header.length = residualHeaderSize := length_of_structPack packed
  have ranksLen : ranks.length = rankBlocks f.factCount * 4 := by
    rw [length_packRanks sampled, f.cells.length_directory]
    rfl
  have exact : Lib.Struct.Exact residualHeaderFormat f.headerOf :=
    ⟨(by decide +kernel : residualMagic.length = 4), trivial⟩
  have read : unpack residualHeaderFormat f.blob = f.headerOf := by
    rw [whole]
    simp only [List.append_assoc]
    exact unpack_structPack packed exact _
  have bitmapWidth : f.cells.bitmap.length = bitmapLen f.factCount := f.cells.bitmap_length
  obtain ⟨front, bitmap, sampledAt, payload, rest⟩ :=
    parts_of_append headerLen bitmapWidth ranksLen rfl whole
  have len : f.blob.length = residualHeaderSize + bitmapLen f.factCount +
      rankBlocks f.factCount * 4 + f.cells.payload.length +
        pageCount f.cells.payload.length f.pageSize * tagBytes + tagBytes := by
    rw [whole]
    simp only [List.length_append, headerLen, ranksLen, manifestMac, Crypto.length_tag,
      bitmapWidth, tagsLen]
    omega
  have within : f.cells.payload.length ≤ f.factCount := f.cells.length_payload_le
  simp only [init, bind_eq_ok, require_eq_ok, read, headerOf, Int.toNat_natCast, exists_const,
    true_and]
  refine ⟨by omega, Int.ofNat_lt.mpr paged, Int.ofNat_le.mpr within, ?_⟩
  rw [dif_pos len]
  simp only [bind_eq_ok, require_eq_ok, exists_const]
  have tags : (f.blob.drop (residualHeaderSize + bitmapLen f.factCount +
      rankBlocks f.factCount * 4 + f.cells.payload.length)).take
        (pageCount f.cells.payload.length f.pageSize * tagBytes) = f.pageTags := by
    rw [rest, ← tagsLen, List.take_left]
  have mac : f.blob.drop (residualHeaderSize + bitmapLen f.factCount +
      rankBlocks f.factCount * 4 + f.cells.payload.length +
        pageCount f.cells.payload.length f.pageSize * tagBytes) =
          manifestMac c f.key header f.cells.bitmap ranks f.pageTags := by
    rw [← List.drop_drop, rest, ← tagsLen, List.drop_left]
  refine ⟨?_, ?_⟩
  · rw [front, bitmap, sampledAt, Nat.add_sub_cancel_left, tags, mac]
  · have width : ((f.blob.drop residualHeaderSize).take (bitmapLen f.factCount)).length =
        (f.cells.size + 7) / 8 := by rw [bitmap, f.cells.bitmap_length]
    have valid := (@validate_readRanks _ _ _ _ width (sampledAt.symm ▸ ranksLen) f.cells).mpr
      ⟨rfl, bitmap.symm, sampledAt.symm ▸ sampled, payload.symm⟩
    split
    · rename_i failed
      cases valid.symm.trans failed
    · rename_i cells found
      cases valid.symm.trans found
      rw [Nat.add_sub_cancel_left, tags]

theorem init_eq_ok : init c blob key = .ok f ↔
    f.key = key ∧ f.blob = blob ∧ Canonical c f := by
  constructor
  · exact canonical_of_init
  · rintro ⟨rfl, rfl, canonical⟩
    exact init_of_canonical canonical

end ResidualField

end ProofRay.Engine
