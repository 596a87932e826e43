/- What the layers addressed by ordinal hold: the blob of a snapshot or of a field is
   the one `build` makes of the map its lookups describe. -/

import ProofRay.Engine.BlobForms
import ProofRay.Engine.Primitives

namespace ProofRay.Engine

open Lib (Dict SparseBytes)
open Lib.Bitmap (bitAt)
open Lib.Guard
open Lib.Struct (Field)
open Lib.SparseBytes (ofCells size_ofCells)

/-- A partial map from the ordinals below `n` to bytes. -/
def MapsBelow (n : Nat) (d : Dict Nat Int) : Prop :=
  ∀ o v, d.get o = some v → o < n ∧ 0 ≤ v ∧ v ≤ 255

theorem length_cellsOf (n : Nat) (d : Dict Nat Int) : (cellsOf n d).length = n := by
  simp [cellsOf]

private theorem value_byte (v : UInt8) : UInt8.ofNat (((v.toNat : Int) % 256).toNat) = v := by
  have small : v.toNat < 256 := v.toNat_lt
  have same : ((v.toNat : Int) % 256).toNat = v.toNat := by omega
  rw [same, UInt8.ofNat_toNat]

private theorem byte_value {v : Int} (nonneg : 0 ≤ v) (below : v ≤ 255) :
    ((UInt8.ofNat (v % 256).toNat).toNat : Int) = v := by
  have small : (v % 256).toNat < 256 := by omega
  rw [UInt8.toNat_ofNat_of_lt' small]
  omega

variable {s : SparseBytes rankBlock} {d : Dict Nat Int}

private theorem reading_below {o : Nat} {v : UInt8} (found : s.get? o = some v) : o < s.size := by
  by_contra past
  rw [SparseBytes.get?, if_neg (fun member => past member.1)] at found
  cases found

def readings (s : SparseBytes rankBlock) : Dict Nat Int where
  items := (List.range s.size).filterMap fun o => (s.get? o).map fun v => (o, (v.toNat : Int))
  nodup := by
    rw [List.map_filterMap]
    apply List.Nodup.filterMap _ List.nodup_range
    intro o o' k left right
    simp only [Option.mem_def, Option.map_map, Option.map_eq_some_iff,
      Function.comp_apply] at left right
    obtain ⟨-, -, rfl⟩ := left
    obtain ⟨-, -, same⟩ := right
    exact same.symm

theorem get_readings (s : SparseBytes rankBlock) (o : Nat) :
    (readings s).get o = (s.get? o).map fun v => (v.toNat : Int) := by
  ext a
  rw [Dict.get_eq_some_iff, readings, List.mem_filterMap]
  simp only [List.mem_range, Option.map_eq_some_iff, Prod.mk.injEq]
  constructor
  · rintro ⟨o', -, v, found, rfl, rfl⟩
    exact ⟨v, found, rfl⟩
  · rintro ⟨v, found, rfl⟩
    exact ⟨o, reading_below found, v, found, rfl, rfl⟩

theorem mapsBelow_readings (s : SparseBytes rankBlock) : MapsBelow s.size (readings s) := by
  intro o v found
  rw [get_readings, Option.map_eq_some_iff] at found
  obtain ⟨b, found, rfl⟩ := found
  have small : b.toNat < 256 := b.toNat_lt
  exact ⟨reading_below found, by omega, by omega⟩

theorem ofCells_cellsOf (same : ∀ o < s.size, d.get o = (s.get? o).map fun v => (v.toNat : Int)) :
    ofCells rankBlock (cellsOf s.size d) = s := by
  have cells : cellsOf s.size d = s.cells := by
    apply List.map_congr_left
    intro o member
    rw [same o (List.mem_range.mp member)]
    cases s.get? o with
    | none => rfl
    | some v => simp only [Option.map_some, value_byte]
  rw [cells, s.ofCells_cells eight_dvd_rankBlock rankBlock_pos]

theorem get?_cellsOf {n : Nat} (below : MapsBelow n d) (o : Nat) :
    ((ofCells rankBlock (cellsOf n d)).get? o).map (fun v => (v.toNat : Int)) = d.get o := by
  rw [SparseBytes.get?_ofCells eight_dvd_rankBlock rankBlock_pos, List.getD_eq_getElem?_getD]
  by_cases inside : o < n
  · simp only [cellsOf, List.getElem?_map, List.getElem?_range inside, Option.map_some,
      Option.getD_some, Option.map_map]
    cases found : d.get o with
    | none => rfl
    | some v =>
      obtain ⟨-, nonneg, small⟩ := below o v found
      simp only [Option.map_some, Function.comp_apply, byte_value nonneg small]
  · rw [List.getElem?_eq_none (by rw [length_cellsOf]; omega)]
    cases found : d.get o with
    | none => rfl
    | some v => exact absurd (below o v found).1 inside

namespace BulkSnapshot

variable {c : Crypto} {blob key : Bytes} {b : BulkSnapshot}

variable {values : Dict Nat Int} {n : Nat} {scopeId generationId : Int}

theorem checkValues_eq_ok {l : List Nat} :
    checkValues n values l = .ok () ↔ ∀ o ∈ l, o < n ∧ ∀ v ∈ values.get o, 0 ≤ v ∧ v ≤ 255 := by
  induction l with
  | nil => simp [checkValues]
  | cons o l ih => simp [checkValues, ih, and_assoc]

theorem checkValues_sortedKeys :
    checkValues n values (sortedKeys values) = .ok () ↔ MapsBelow n values := by
  rw [checkValues_eq_ok]
  constructor
  · intro checked o v found
    have key : o ∈ sortedKeys values :=
      (List.mem_insertionSort _).mpr ((values.mem_keys_iff o).mpr ⟨v, found⟩)
    exact ⟨(checked o key).1, (checked o key).2 v found⟩
  · intro below o member
    obtain ⟨v, found⟩ := (values.mem_keys_iff o).mp ((List.mem_insertionSort _).mp member)
    refine ⟨(below o v found).1, fun w hit => ?_⟩
    exact (below o w hit).2

/-- `build` makes the blob of the cells of a map. -/
theorem build_eq_ok :
    build c n values scopeId generationId key = .ok b ↔
      MapsBelow n values ∧ b.scopeId = scopeId ∧ b.generationId = generationId ∧
        b.cells = ofCells rankBlock (cellsOf n values) ∧
        init c b.blob key = .ok b := by
  constructor
  · intro built
    simp only [build, bind_eq_ok, require_eq_ok] at built
    obtain ⟨_, few, _, checked, header, packed, ranks, sampled, opened⟩ := built
    obtain ⟨cells, sparse⟩ : ∃ cells, cells = ofCells rankBlock (cellsOf n values) :=
      ⟨_, rfl⟩
    rw [← sparse] at packed sampled opened
    have counted : cells.size = n := by rw [sparse, size_ofCells, length_cellsOf]
    have accepted : init c _ key = .ok ⟨header ++ cells.bitmap ++ ranks ++ cells.payload ++
        mac c key header cells.bitmap ranks cells.payload, scopeId, generationId, cells⟩ :=
      init_of_canonical ⟨by rwa [factCount, counted], header, ranks,
        by rwa [headerOf, factCount, counted], sampled, rfl⟩
    cases accepted.symm.trans opened
    exact ⟨checkValues_sortedKeys.mp checked, rfl, rfl, sparse, accepted⟩
  · rintro ⟨below, rfl, rfl, cells, opened⟩
    obtain ⟨-, few, header, ranks, packed, sampled, whole⟩ := init_eq_ok.mp opened
    have counted : b.factCount = n := by
      rw [factCount, cells, size_ofCells, length_cellsOf]
    simp only [build, bind_eq_ok, require_eq_ok]
    refine ⟨(), counted ▸ few, (), checkValues_sortedKeys.mpr below, header, ?_, ranks, ?_, ?_⟩
    · rw [← cells, ← counted]
      exact packed
    · rw [← cells]
      exact sampled
    · rw [← cells, ← whole]
      exact opened

/-- `lookup`, at any integer. -/
def lookupAt (b : BulkSnapshot) (ordinal : Int) : BulkRead :=
  if ordinal < 0 then .outOfRange else b.lookup ordinal.toNat

/-- What a lookup in a map of `n` ordinals answers. -/
def answer (n : Nat) (values : Dict Nat Int) (ordinal : Int) : BulkRead :=
  if 0 ≤ ordinal ∧ ordinal < n then
    match values.get ordinal.toNat with
    | some v => .value v
    | none => .absent
  else .outOfRange

def Describes (b : BulkSnapshot) (values : Dict Nat Int) : Prop :=
  MapsBelow b.factCount values ∧ ∀ ordinal, b.lookupAt ordinal = answer b.factCount values ordinal

theorem lookup_eq (b : BulkSnapshot) {o : Nat} (inside : o < b.factCount) :
    b.lookup o = match (b.cells.get? o).map fun v => (v.toNat : Int) with
      | some v => .value v
      | none => .absent := by
  rw [lookup, if_neg (Nat.not_le_of_lt inside)]
  cases b.cells.get? o with
  | none => rfl
  | some v => rfl

theorem describes_iff : b.Describes values ↔
    MapsBelow b.factCount values ∧
      ∀ o < b.factCount, values.get o = (b.cells.get? o).map fun v => (v.toNat : Int) := by
  apply and_congr_right
  intro below
  constructor
  · intro same o inside
    have answered := same o
    rw [lookupAt, if_neg (by omega), answer, if_pos ⟨by omega, by omega⟩, Int.toNat_natCast,
      b.lookup_eq inside] at answered
    revert answered
    cases values.get o <;> cases (b.cells.get? o).map fun v => (v.toNat : Int) <;> simp
    exact fun same => same.symm
  · intro same ordinal
    rw [lookupAt, answer]
    by_cases negative : ordinal < 0
    · rw [if_pos negative, if_neg (by omega)]
    · rw [if_neg negative]
      by_cases inside : ordinal < b.factCount
      · have inside' : ordinal.toNat < b.factCount := by omega
        rw [if_pos ⟨by omega, inside⟩, b.lookup_eq inside', same _ inside']
      · rw [if_neg (by omega), lookup, if_pos (by omega)]

theorem fits_headerOf (few : b.factCount ≤ maxFactCount)
    (scope : 0 ≤ b.scopeId ∧ b.scopeId < 2 ^ 32)
    (generation : 0 ≤ b.generationId ∧ b.generationId < 2 ^ 64) :
    Lib.Struct.Fits bulkHeaderFormat b.headerOf := by
  have limit : maxFactCount < 2 ^ 32 := by decide
  have within : b.cells.payload.length ≤ b.factCount := b.cells.length_payload_le
  have version : Field.u16.Fits bulkFormatVersion := by decide
  have kind : Field.u16.Fits valueKindU8 := by decide
  have block : Field.u32.Fits (rankBlock : Int) := by decide
  have facts : (b.factCount : Int) < 256 ^ 4 := by omega
  have support : (b.cells.payload.length : Int) < 256 ^ 4 := by omega
  have wide : b.scopeId < 256 ^ 4 := by omega
  have wide' : b.generationId < 256 ^ 8 := by omega
  exact ⟨(by decide : bulkMagic.length = 4), version, kind, ⟨scope.1, wide⟩,
    ⟨generation.1, wide'⟩, ⟨Int.natCast_nonneg _, facts⟩, ⟨Int.natCast_nonneg _, support⟩, block,
    trivial⟩

theorem exists_init (cells : SparseBytes rankBlock) (few : cells.size ≤ maxFactCount)
    (scope : 0 ≤ scopeId ∧ scopeId < 2 ^ 32) (generation : 0 ≤ generationId ∧ generationId < 2 ^ 64)
    (c : Crypto) (key : Bytes) :
    ∃ blob, init c blob key = .ok ⟨blob, scopeId, generationId, cells⟩ := by
  have limit : maxFactCount < 2 ^ 32 := by decide
  obtain ⟨header, packed⟩ := structPack_of_fits bulkHeaderFormat _
    (fits_headerOf (b := ⟨[], scopeId, generationId, cells⟩) few scope generation)
  obtain ⟨ranks, sampled⟩ := packRanks_of_small cells.directory fun r member => by
    have bound := cells.le_of_mem_directory member
    omega
  exact ⟨_, init_of_canonical (b := ⟨header ++ cells.bitmap ++ ranks ++ cells.payload ++
    mac c key header cells.bitmap ranks cells.payload, scopeId, generationId, cells⟩)
      ⟨few, header, ranks, packed, sampled, rfl⟩⟩

theorem build_describes (few : n ≤ maxFactCount) (below : MapsBelow n values)
    (scope : 0 ≤ scopeId ∧ scopeId < 2 ^ 32) (generation : 0 ≤ generationId ∧ generationId < 2 ^ 64)
    (c : Crypto) (key : Bytes) :
    ∃ b, build c n values scopeId generationId key = .ok b ∧ init c b.blob key = .ok b ∧
      b.factCount = n ∧ b.Describes values := by
  have counted : (ofCells rankBlock (cellsOf n values)).size = n := by
    rw [size_ofCells, length_cellsOf]
  obtain ⟨blob, opened⟩ := exists_init (ofCells rankBlock (cellsOf n values))
    (counted.symm ▸ few) scope generation c key
  refine ⟨⟨blob, scopeId, generationId, _⟩, build_eq_ok.mpr ⟨below, rfl, rfl, rfl, opened⟩,
    opened, counted, ?_⟩
  refine describes_iff.mpr ⟨?_, fun o _ => (get?_cellsOf below o).symm⟩
  show MapsBelow (ofCells rankBlock (cellsOf n values)).size values
  rw [counted]
  exact below

/-- An accepted blob is the one `build` makes of the map its lookups describe. -/
theorem build_of_describes (opened : init c blob key = .ok b) (described : b.Describes values) :
    build c b.factCount values b.scopeId b.generationId key = .ok b := by
  obtain ⟨below, same⟩ := describes_iff.mp described
  obtain ⟨rfl, -⟩ := init_eq_ok.mp opened
  exact build_eq_ok.mpr ⟨below, rfl, rfl, (ofCells_cellsOf same).symm, opened⟩

theorem exists_describes (b : BulkSnapshot) : ∃ values, b.Describes values :=
  ⟨readings b.cells, describes_iff.mpr
    ⟨mapsBelow_readings b.cells, fun o _ => get_readings b.cells o⟩⟩

end BulkSnapshot

namespace ResidualField

variable {c : Crypto} {blob key : Bytes} {f : ResidualField}

theorem length_pageMac {scope epoch index : Int} {page tag : Bytes}
    (tagged : pageMac c key scope epoch index page = .ok tag) : tag.length = tagBytes := by
  simp only [pageMac, bind_eq_ok, pure_eq_ok] at tagged
  obtain ⟨head, -, rfl⟩ := tagged
  exact c.length_tag key _

variable {scope epoch : Int}

theorem pageTagsOf_eq_ok {pageSize n index : Nat} {payload tags : Bytes} :
    pageTagsOf c key scope epoch pageSize n index payload = .ok tags ↔
      tags.length = n * tagBytes ∧ ∀ j < n,
        pageMac c key scope epoch ((index + j : Nat) : Int)
          ((payload.drop (j * pageSize)).take pageSize) =
            .ok ((tags.drop (j * tagBytes)).take tagBytes) := by
  induction n generalizing index payload tags with
  | zero =>
    rw [pageTagsOf, Except.ok.injEq, Nat.zero_mul, List.length_eq_zero_iff]
    constructor
    · rintro rfl
      exact ⟨rfl, fun j impossible => absurd impossible (Nat.not_lt_zero j)⟩
    · exact fun h => h.1.symm
  | succ n ih =>
    have later (j : Nat) : index + (j + 1) = index + 1 + j := by omega
    have place (j m : Nat) (bytes : Bytes) :
        bytes.drop ((j + 1) * m) = (bytes.drop m).drop (j * m) := by
      rw [List.drop_drop, Nat.add_mul, Nat.one_mul, Nat.add_comm]
    simp only [pageTagsOf, bind_eq_ok, pure_eq_ok]
    constructor
    · rintro ⟨tag, tagged, rest, tail, rfl⟩
      obtain ⟨len, each⟩ := ih.mp tail
      have width := length_pageMac tagged
      refine ⟨by rw [List.length_append, width, len, Nat.add_mul]; omega, fun j inside => ?_⟩
      cases j with
      | zero =>
        rw [Nat.zero_mul, Nat.zero_mul, List.drop_zero, List.drop_zero, ← width, List.take_left]
        exact tagged
      | succ j =>
        have next := each j (by omega)
        rw [later, place, place, ← width, List.drop_left, width]
        exact next
    · rintro ⟨len, each⟩
      rw [Nat.add_mul, Nat.one_mul] at len
      have first := each 0 (by omega)
      rw [Nat.zero_mul, Nat.zero_mul, List.drop_zero, List.drop_zero] at first
      refine ⟨tags.take tagBytes, first, tags.drop tagBytes, ?_, List.take_append_drop _ _⟩
      refine ih.mpr ⟨by rw [List.length_drop]; omega, fun j inside => ?_⟩
      have next := each (j + 1) (by omega)
      rwa [later, place, place] at next

theorem exists_pageTagsOf (scopeRange : 0 ≤ scope ∧ scope < 2 ^ 32)
    (epochRange : 0 ≤ epoch ∧ epoch < 2 ^ 32) (c : Crypto) (key : Bytes) (pageSize n index : Nat)
    (few : index + n ≤ 2 ^ 32) (payload : Bytes) :
    ∃ tags, pageTagsOf c key scope epoch pageSize n index payload = .ok tags := by
  induction n generalizing index payload with
  | zero => exact ⟨[], rfl⟩
  | succ n ih =>
    obtain ⟨tags, tail⟩ := ih (index + 1) (by omega) (payload.drop pageSize)
    have version : Field.u16.Fits formatVersion := by decide
    have scope' : scope < 256 ^ 4 := by omega
    have epoch' : epoch < 256 ^ 4 := by omega
    have index' : (index : Int) < 256 ^ 4 := by omega
    obtain ⟨head, packed⟩ := structPack_of_fits [.u16, .u32, .u32, .u32]
      (formatVersion, scope, epoch, (index : Int), ())
      ⟨version, ⟨scopeRange.1, scope'⟩, ⟨epochRange.1, epoch'⟩, ⟨Int.natCast_nonneg _, index'⟩,
        trivial⟩
    refine ⟨c.tag key (head ++ payload.take pageSize) ++ tags, ?_⟩
    simp only [pageTagsOf, bind_eq_ok, pure_eq_ok]
    refine ⟨_, ?_, tags, tail, rfl⟩
    simp only [pageMac, bind_eq_ok, pure_eq_ok]
    exact ⟨head, packed, rfl⟩

def Verified (c : Crypto) (f : ResidualField) : Prop :=
  ∀ j < pageCount f.cells.payload.length f.pageSize, verifyPage c f j = true

theorem verified_iff (tagsLen : f.pageTags.length =
    pageCount f.cells.payload.length f.pageSize * tagBytes) :
    Verified c f ↔ pageTagsOf c f.key f.scopeId f.bulkEpoch f.pageSize
      (pageCount f.cells.payload.length f.pageSize) 0 f.cells.payload = .ok f.pageTags := by
  rw [pageTagsOf_eq_ok, and_iff_right tagsLen]
  apply forall₂_congr
  intro j _
  rw [verifyPage, Nat.zero_add]
  cases pageMac c f.key f.scopeId f.bulkEpoch j _ with
  | error e => simp
  | ok expected => simp

/-- What a lookup answers where a payload byte is found: the byte, when its page has the tag
the field holds for it. -/
theorem lookup_eq (f : ResidualField) (c : Crypto) {o : Nat} (inside : o < f.factCount) :
    f.lookup c o f.scopeId f.bulkEpoch = match f.cells.get? o with
      | none => .noResidual
      | some v =>
        if verifyPage c f (f.cells.rank o / f.pageSize) then .correct v.toNat
        else .abstainIntegrity := by
  rw [lookup, if_neg (not_not_intro rfl), if_neg (not_not_intro rfl),
    if_neg (Nat.not_le_of_lt inside)]
  by_cases member : o ∈ f.cells.support
  · have set := (f.cells.mem_support o |>.mp member).2
    obtain ⟨v, found⟩ := f.cells.get?_of_mem eight_dvd_rankBlock rankBlock_pos member
    have byte := found
    rw [SparseBytes.get?, if_pos ⟨inside, set⟩] at byte
    rw [if_neg (not_not_intro set), found, byte]
  · have clear : ¬ bitAt f.cells.bitmap o = true := fun set =>
      member (f.cells.mem_support o |>.mpr ⟨inside, set⟩)
    rw [if_pos clear, f.cells.get?_of_not_mem member]

/-- `lookup`, at any integer. -/
def lookupAt (c : Crypto) (f : ResidualField) (ordinal scopeId bulkEpoch : Int) : Resolution :=
  if scopeId ≠ f.scopeId then .abstainScope
  else if bulkEpoch ≠ f.bulkEpoch then .abstainEpoch
  else if ordinal < 0 then .outOfRange
  else f.lookup c ordinal.toNat scopeId bulkEpoch

/-- What a lookup in a map of `n` ordinals answers. -/
def answer (n : Nat) (corrections : Dict Nat Int) (ordinal : Int) : Resolution :=
  if 0 ≤ ordinal ∧ ordinal < n then
    match corrections.get ordinal.toNat with
    | some v => .correct v
    | none => .noResidual
  else .outOfRange

def Describes (c : Crypto) (f : ResidualField) (corrections : Dict Nat Int) : Prop :=
  MapsBelow f.factCount corrections ∧
    ∀ ordinal, f.lookupAt c ordinal f.scopeId f.bulkEpoch = answer f.factCount corrections ordinal

theorem lookupAt_self (c : Crypto) (f : ResidualField) (ordinal : Int) :
    f.lookupAt c ordinal f.scopeId f.bulkEpoch =
      if 0 ≤ ordinal ∧ ordinal < f.factCount then
        f.lookup c ordinal.toNat f.scopeId f.bulkEpoch
      else .outOfRange := by
  rw [lookupAt, if_neg (not_not_intro rfl), if_neg (not_not_intro rfl)]
  by_cases negative : ordinal < 0
  · rw [if_pos negative, if_neg (by omega)]
  · rw [if_neg negative]
    by_cases inside : ordinal < f.factCount
    · rw [if_pos ⟨by omega, inside⟩]
    · rw [if_neg (by omega), lookup, if_neg (not_not_intro rfl), if_neg (not_not_intro rfl),
        if_pos (by omega)]

private theorem page_lt {n k pageSize : Nat} (paged : 0 < pageSize) (inside : k < n) :
    k / pageSize < pageCount n pageSize := by
  have low : k / pageSize * pageSize ≤ k := Nat.div_mul_le_self k pageSize
  rw [pageCount, Nat.lt_iff_add_one_le, Nat.le_div_iff_mul_le paged, Nat.add_mul, Nat.one_mul]
  omega

private theorem start_lt {n j pageSize : Nat} (paged : 0 < pageSize)
    (inside : j < pageCount n pageSize) : j * pageSize < n := by
  rw [pageCount, Nat.lt_iff_add_one_le, Nat.le_div_iff_mul_le paged, Nat.add_mul,
    Nat.one_mul] at inside
  omega

theorem verified_iff_answers (paged : 0 < f.pageSize) : Verified c f ↔
    ∀ ordinal, f.lookupAt c ordinal f.scopeId f.bulkEpoch ≠ .abstainIntegrity := by
  constructor
  · intro verified ordinal
    rw [lookupAt_self]
    by_cases inside : 0 ≤ ordinal ∧ ordinal < f.factCount
    · rw [if_pos inside, f.lookup_eq c (by omega)]
      cases found : f.cells.get? ordinal.toNat with
      | none => simp
      | some v =>
        have member : ordinal.toNat ∈ f.cells.support := by
          by_contra outside
          rw [f.cells.get?_of_not_mem outside] at found
          cases found
        have bound := f.cells.rank_lt eight_dvd_rankBlock rankBlock_pos member
        simp [verified _ (page_lt paged bound)]
    · rw [if_neg inside]
      simp
  · intro answered j inside
    obtain ⟨o, member, rank⟩ := f.cells.exists_rank_eq eight_dvd_rankBlock rankBlock_pos
      (start_lt paged inside)
    have below : o < f.factCount := (f.cells.mem_support o |>.mp member).1
    obtain ⟨v, found⟩ := f.cells.get?_of_mem eight_dvd_rankBlock rankBlock_pos member
    have spoken := answered o
    rw [lookupAt_self, if_pos ⟨by omega, by omega⟩, Int.toNat_natCast, f.lookup_eq c below, found,
      rank, Nat.mul_div_cancel j paged] at spoken
    by_contra wrong
    simp [wrong] at spoken

variable {corrections : Dict Nat Int} {pageSize : Nat} {scopeId bulkEpoch : Int} {n : Nat}

theorem describes_iff (paged : 0 < f.pageSize) :
    f.Describes c corrections ↔ Verified c f ∧ MapsBelow f.factCount corrections ∧
      ∀ o < f.factCount, corrections.get o = (f.cells.get? o).map fun v => (v.toNat : Int) := by
  have answer_ne (ordinal : Int) :
      answer f.factCount corrections ordinal ≠ .abstainIntegrity := by
    rw [answer]
    split
    · cases corrections.get ordinal.toNat <;> simp
    · simp
  have reading (verified : Verified c f) {o : Nat} (inside : o < f.factCount) :
      f.lookup c o f.scopeId f.bulkEpoch =
        match (f.cells.get? o).map fun v => (v.toNat : Int) with
        | some v => .correct v
        | none => .noResidual := by
    have spoken := (verified_iff_answers paged).mp verified o
    rw [lookupAt_self, if_pos ⟨by omega, by omega⟩, Int.toNat_natCast] at spoken
    rw [f.lookup_eq c inside] at spoken ⊢
    cases found : f.cells.get? o with
    | none => rfl
    | some v =>
      rw [found] at spoken
      by_cases tagged : verifyPage c f (f.cells.rank o / f.pageSize) = true
      · simp [tagged]
      · simp [tagged] at spoken
  constructor
  · rintro ⟨below, same⟩
    have verified : Verified c f :=
      (verified_iff_answers paged).mpr fun ordinal => same ordinal ▸ answer_ne ordinal
    refine ⟨verified, below, fun o inside => ?_⟩
    have answered := same o
    rw [lookupAt_self, if_pos ⟨by omega, by omega⟩, answer, if_pos ⟨by omega, by omega⟩,
      Int.toNat_natCast, reading verified inside] at answered
    revert answered
    cases corrections.get o <;> cases (f.cells.get? o).map fun v => (v.toNat : Int) <;> simp
    exact fun same => same.symm
  · rintro ⟨verified, below, same⟩
    refine ⟨below, fun ordinal => ?_⟩
    rw [lookupAt_self, answer]
    by_cases inside : 0 ≤ ordinal ∧ ordinal < f.factCount
    · have inside' : ordinal.toNat < f.factCount := by omega
      rw [if_pos inside, if_pos inside, reading verified inside', same _ inside']
    · rw [if_neg inside, if_neg inside]

theorem exists_describes (paged : 0 < f.pageSize) :
    (∃ corrections, f.Describes c corrections) ↔ Verified c f := by
  constructor
  · rintro ⟨corrections, described⟩
    exact ((describes_iff paged).mp described).1
  · intro verified
    exact ⟨readings f.cells, (describes_iff paged).mpr
      ⟨verified, mapsBelow_readings f.cells, fun o _ => get_readings f.cells o⟩⟩

theorem checkOrdinals_eq_ok {l : List Nat} : checkOrdinals n l = .ok () ↔ ∀ o ∈ l, o < n := by
  induction l with
  | nil => simp [checkOrdinals]
  | cons o l ih => simp [checkOrdinals, ih]

/-- `build` makes the blob of the cells of a map, with the tags of its pages. -/
theorem build_eq_ok :
    build c n corrections pageSize scopeId bulkEpoch key = .ok f ↔
      (∀ o ∈ corrections.keys, o < n) ∧ f.pageSize = pageSize ∧ f.scopeId = scopeId ∧
        f.bulkEpoch = bulkEpoch ∧
        f.cells = ofCells rankBlock (cellsOf n corrections) ∧ Verified c f ∧
        init c f.blob key = .ok f := by
  constructor
  · intro built
    simp only [build, bind_eq_ok, require_eq_ok] at built
    obtain ⟨_, checked, header, packed, _, paged, ranks, sampled, tags, tagged, opened⟩ := built
    obtain ⟨cells, sparse⟩ : ∃ cells, cells = ofCells rankBlock (cellsOf n corrections) := ⟨_, rfl⟩
    rw [← sparse] at packed sampled tagged opened
    have counted : cells.size = n := by rw [sparse, size_ofCells, length_cellsOf]
    have tagsLen := (pageTagsOf_eq_ok.mp tagged).1
    have accepted := init_of_canonical (c := c)
      (f := ⟨key, header ++ cells.bitmap ++ ranks ++ cells.payload ++ tags ++
        manifestMac c key header cells.bitmap ranks tags, scopeId, bulkEpoch, pageSize, tags,
        cells⟩)
      ⟨Nat.pos_of_ne_zero paged, tagsLen, header, ranks, by rwa [headerOf, factCount, counted],
        sampled, by rw [List.append_assoc _ tags]⟩
    cases accepted.symm.trans opened
    refine ⟨fun o member => ?_, rfl, rfl, rfl, sparse, (verified_iff tagsLen).mpr tagged, accepted⟩
    exact checkOrdinals_eq_ok.mp checked o ((List.mem_insertionSort _).mpr member)
  · rintro ⟨below, rfl, rfl, rfl, cells, verified, opened⟩
    obtain ⟨rfl, -, paged, tagsLen, header, ranks, packed, sampled, whole⟩ := init_eq_ok.mp opened
    have tagged := (verified_iff tagsLen).mp verified
    have counted : f.factCount = n := by
      rw [factCount, cells, size_ofCells, length_cellsOf]
    have checked : checkOrdinals n (sortedKeys corrections) = .ok () :=
      checkOrdinals_eq_ok.mpr fun o member => below o ((List.mem_insertionSort _).mp member)
    simp only [build, bind_eq_ok, require_eq_ok]
    refine ⟨(), checked, header, ?_, (), Nat.ne_of_gt paged, ranks, ?_, f.pageTags, ?_, ?_⟩
    · rw [← cells, ← counted]
      exact packed
    · rw [← cells]
      exact sampled
    · rw [← cells]
      exact tagged
    · rw [← cells, List.append_assoc _ f.pageTags, ← whole]
      exact opened

theorem fits_headerOf (few : f.factCount < 2 ^ 32) (paged : f.pageSize < 2 ^ 32)
    (scope : 0 ≤ f.scopeId ∧ f.scopeId < 2 ^ 32) (epoch : 0 ≤ f.bulkEpoch ∧ f.bulkEpoch < 2 ^ 32) :
    Lib.Struct.Fits residualHeaderFormat f.headerOf := by
  have within : f.cells.payload.length ≤ f.factCount := f.cells.length_payload_le
  have version : Field.u16.Fits formatVersion := by decide
  have kind : Field.u8.Fits payloadRawU8 := by decide
  have scope' : f.scopeId < 256 ^ 4 := by omega
  have epoch' : f.bulkEpoch < 256 ^ 4 := by omega
  have facts : (f.factCount : Int) < 256 ^ 4 := by omega
  have page : (f.pageSize : Int) < 256 ^ 4 := by omega
  have support : (f.cells.payload.length : Int) < 256 ^ 4 := by omega
  exact ⟨(by decide : residualMagic.length = 4), version, ⟨scope.1, scope'⟩,
    ⟨epoch.1, epoch'⟩, ⟨Int.natCast_nonneg _, facts⟩, ⟨Int.natCast_nonneg _, page⟩,
    ⟨Int.natCast_nonneg _, support⟩, kind, trivial⟩

theorem exists_init {cells : SparseBytes rankBlock} {pageTags : Bytes} (few : cells.size < 2 ^ 32)
    (paged : 0 < pageSize ∧ pageSize < 2 ^ 32) (scope : 0 ≤ scopeId ∧ scopeId < 2 ^ 32)
    (epoch : 0 ≤ bulkEpoch ∧ bulkEpoch < 2 ^ 32)
    (tagsLen : pageTags.length = pageCount cells.payload.length pageSize * tagBytes) (c : Crypto)
    (key : Bytes) :
    ∃ blob, init c blob key = .ok ⟨key, blob, scopeId, bulkEpoch, pageSize, pageTags, cells⟩ := by
  obtain ⟨header, packed⟩ := structPack_of_fits residualHeaderFormat _
    (fits_headerOf (f := ⟨key, [], scopeId, bulkEpoch, pageSize, pageTags, cells⟩) few paged.2
      scope epoch)
  obtain ⟨ranks, sampled⟩ := packRanks_of_small cells.directory fun r member => by
    have bound := cells.le_of_mem_directory member
    omega
  exact ⟨_, init_of_canonical (f := ⟨key, header ++ cells.bitmap ++ ranks ++ cells.payload ++
    (pageTags ++ manifestMac c key header cells.bitmap ranks pageTags), scopeId, bulkEpoch,
    pageSize, pageTags, cells⟩) ⟨paged.1, tagsLen, header, ranks, packed, sampled, rfl⟩⟩

private theorem pageCount_le (n : Nat) (paged : 0 < pageSize) : pageCount n pageSize ≤ n := by
  rw [pageCount, Nat.div_le_iff_le_mul_add_pred paged]
  have grow : n ≤ pageSize * n := Nat.le_mul_of_pos_left n paged
  omega

theorem build_describes (few : n < 2 ^ 32) (below : MapsBelow n corrections)
    (paged : 0 < pageSize ∧ pageSize < 2 ^ 32) (scope : 0 ≤ scopeId ∧ scopeId < 2 ^ 32)
    (epoch : 0 ≤ bulkEpoch ∧ bulkEpoch < 2 ^ 32) (c : Crypto) (key : Bytes) :
    ∃ f, build c n corrections pageSize scopeId bulkEpoch key = .ok f ∧
      init c f.blob key = .ok f ∧ f.scopeId = scopeId ∧ f.bulkEpoch = bulkEpoch ∧
      f.factCount = n ∧ f.Describes c corrections := by
  obtain ⟨cells, sparse⟩ : ∃ cells, cells = ofCells rankBlock (cellsOf n corrections) := ⟨_, rfl⟩
  have counted : cells.size = n := by rw [sparse, size_ofCells, length_cellsOf]
  have within := cells.length_payload_le
  have pages := pageCount_le cells.payload.length paged.1
  obtain ⟨tags, tagged⟩ := exists_pageTagsOf scope epoch c key pageSize
    (pageCount cells.payload.length pageSize) 0 (by omega) cells.payload
  have tagsLen := (pageTagsOf_eq_ok.mp tagged).1
  obtain ⟨blob, opened⟩ := exists_init (counted.symm ▸ few) paged scope epoch tagsLen c key
  have verified : Verified c ⟨key, blob, scopeId, bulkEpoch, pageSize, tags, cells⟩ :=
    (verified_iff tagsLen).mpr tagged
  refine ⟨⟨key, blob, scopeId, bulkEpoch, pageSize, tags, cells⟩, build_eq_ok.mpr
    ⟨fun o member => ?_, rfl, rfl, rfl, sparse, verified, opened⟩, opened, rfl, rfl, counted,
    (describes_iff paged.1).mpr ⟨verified, ?_, fun o _ => ?_⟩⟩
  · obtain ⟨v, found⟩ := (corrections.mem_keys_iff o).mp member
    exact (below o v found).1
  · show MapsBelow cells.size corrections
    rw [counted]
    exact below
  · show corrections.get o = (cells.get? o).map _
    rw [sparse, get?_cellsOf below]

/-- An accepted blob whose lookups describe a map is the one `build` makes of it. -/
theorem build_of_describes (opened : init c blob key = .ok f)
    (described : f.Describes c corrections) :
    build c f.factCount corrections f.pageSize f.scopeId f.bulkEpoch key = .ok f := by
  obtain ⟨rfl, rfl, paged, -⟩ := init_eq_ok.mp opened
  obtain ⟨verified, below, same⟩ := (describes_iff paged).mp described
  refine build_eq_ok.mpr ⟨fun o member => ?_, rfl, rfl, rfl, (ofCells_cellsOf same).symm,
    verified, opened⟩
  obtain ⟨v, found⟩ := (corrections.mem_keys_iff o).mp member
  exact (below o v found).1

end ResidualField

/-- A snapshot or a field built from a map is opened again and answers as the map.  An
accepted bulk blob is the one built from the map its lookups describe; so is an accepted
residual blob when no lookup abstains. -/
theorem rank_indexed_decode (c : Crypto) (key : Bytes) :
    (∀ (n : Nat) (values : Dict Nat Int) (scopeId generationId : Int), n ≤ maxFactCount →
      MapsBelow n values → 0 ≤ scopeId ∧ scopeId < 2 ^ 32 →
      0 ≤ generationId ∧ generationId < 2 ^ 64 →
      ∃ b, BulkSnapshot.build c n values scopeId generationId key = .ok b ∧
        BulkSnapshot.init c b.blob key = .ok b ∧ b.factCount = n ∧ b.Describes values) ∧
    (∀ (blob : Bytes) (b : BulkSnapshot), BulkSnapshot.init c blob key = .ok b →
      (∃ values, b.Describes values) ∧ ∀ values, b.Describes values →
        ∃ b', BulkSnapshot.build c b.factCount values b.scopeId b.generationId key = .ok b' ∧
          b'.blob = blob) ∧
    (∀ (n : Nat) (corrections : Dict Nat Int) (pageSize : Nat) (scopeId bulkEpoch : Int),
      n < 2 ^ 32 → MapsBelow n corrections → 0 < pageSize ∧ pageSize < 2 ^ 32 →
      0 ≤ scopeId ∧ scopeId < 2 ^ 32 → 0 ≤ bulkEpoch ∧ bulkEpoch < 2 ^ 32 →
      ∃ f, ResidualField.build c n corrections pageSize scopeId bulkEpoch key = .ok f ∧
        ResidualField.init c f.blob key = .ok f ∧ f.scopeId = scopeId ∧
        f.bulkEpoch = bulkEpoch ∧ f.factCount = n ∧ f.Describes c corrections) ∧
    (∀ (blob : Bytes) (f : ResidualField), ResidualField.init c blob key = .ok f →
      ((∃ corrections, f.Describes c corrections) ↔
        ∀ ordinal, f.lookupAt c ordinal f.scopeId f.bulkEpoch ≠ .abstainIntegrity) ∧
      ∀ corrections, f.Describes c corrections →
        ∃ f', ResidualField.build c f.factCount corrections f.pageSize f.scopeId f.bulkEpoch
          key = .ok f' ∧ f'.blob = blob) := by
  refine ⟨?_, ?_, ?_, ?_⟩
  · intro n values scopeId generationId few below scope generation
    exact BulkSnapshot.build_describes few below scope generation c key
  · intro blob b opened
    have same : b.blob = blob := (BulkSnapshot.init_eq_ok.mp opened).1
    exact ⟨b.exists_describes, fun values described =>
      ⟨b, BulkSnapshot.build_of_describes opened described, same⟩⟩
  · intro n corrections pageSize scopeId bulkEpoch few below paged scope epoch
    exact ResidualField.build_describes few below paged scope epoch c key
  · intro blob f opened
    obtain ⟨-, same, paged, -⟩ := ResidualField.init_eq_ok.mp opened
    constructor
    · rw [ResidualField.exists_describes paged, ResidualField.verified_iff_answers paged]
    · exact fun corrections described =>
        ⟨f, ResidualField.build_of_describes opened described, same⟩

def oneValue : Dict Nat Int := Dict.empty.set 1 200

theorem mapsBelow_oneValue : MapsBelow 3 oneValue := by
  intro o v found
  rw [oneValue, Dict.get_set] at found
  split at found
  · rename_i same
    subst same
    cases found
    decide
  · cases found

theorem rank_indexed_decode_oneValue :
    (∃ b, BulkSnapshot.build stdCrypto 3 oneValue 7 2 (zeros 32) = .ok b ∧
      b.lookupAt 1 = .value 200 ∧ b.lookupAt (-1) = .outOfRange ∧
      ∃ b', BulkSnapshot.build stdCrypto b.factCount oneValue b.scopeId b.generationId
        (zeros 32) = .ok b' ∧ b'.blob = b.blob) ∧
    ∃ f, ResidualField.build stdCrypto 3 oneValue 2 7 2 (zeros 32) = .ok f ∧
      f.lookupAt stdCrypto 0 f.scopeId f.bulkEpoch = .noResidual ∧
      ∃ f', ResidualField.build stdCrypto f.factCount oneValue f.pageSize f.scopeId f.bulkEpoch
        (zeros 32) = .ok f' ∧ f'.blob = f.blob := by
  obtain ⟨bulk, bulk', residual, residual'⟩ := rank_indexed_decode stdCrypto (zeros 32)
  obtain ⟨b, built, opened, counted, described⟩ :=
    bulk 3 oneValue 7 2 (by decide) mapsBelow_oneValue (by decide) (by decide)
  obtain ⟨f, built', opened', -, -, counted', described'⟩ :=
    residual 3 oneValue 2 7 2 (by decide) mapsBelow_oneValue (by decide) (by decide) (by decide)
  refine ⟨⟨b, built, ?_, ?_, (bulk' _ b opened).2 oneValue described⟩, f, built', ?_,
    (residual' _ f opened').2 oneValue described'⟩
  · rw [described.2, counted]
    rfl
  · rw [described.2, counted]
    rfl
  · rw [described'.2, counted']
    rfl

private def scramble (tags : Bytes) : Bytes := tags.map fun b => if b = 0 then 1 else 0

private theorem scramble_ne {tags : Bytes} (nonempty : 0 < tags.length) : scramble tags ≠ tags := by
  cases tags with
  | nil => exact absurd nonempty (Nat.lt_irrefl 0)
  | cons b tags =>
    intro same
    have head : (if b = 0 then 1 else 0) = b := (List.cons.inj same).1
    by_cases zero : b = 0
    · simp [zero] at head
    · rw [if_neg zero] at head
      exact zero head.symm

private theorem exists_unverified (c : Crypto) (key : Bytes) : ∃ (blob : Bytes)
    (f : ResidualField), ResidualField.init c blob key = .ok f ∧ f.factCount = 1 ∧
      ¬ ResidualField.Verified c f := by
  obtain ⟨cells, sparse⟩ : ∃ cells, cells = ofCells rankBlock [some 0] := ⟨_, rfl⟩
  have counted : cells.size = 1 := by rw [sparse]; rfl
  have payload : cells.payload.length = 1 := by rw [sparse]; rfl
  obtain ⟨tags, tagged⟩ := ResidualField.exists_pageTagsOf
    (show 0 ≤ (0 : Int) ∧ (0 : Int) < 2 ^ 32 by decide)
    (show 0 ≤ (0 : Int) ∧ (0 : Int) < 2 ^ 32 by decide) c key 1 1 0 (by decide) cells.payload
  have len := (ResidualField.pageTagsOf_eq_ok.mp tagged).1
  have len' : (scramble tags).length =
      ResidualField.pageCount cells.payload.length 1 * tagBytes := by
    rw [scramble, List.length_map, len, payload]
    rfl
  obtain ⟨blob, opened⟩ := ResidualField.exists_init (counted.symm ▸ by decide) (by decide)
    (show 0 ≤ (0 : Int) ∧ (0 : Int) < 2 ^ 32 by decide)
    (show 0 ≤ (0 : Int) ∧ (0 : Int) < 2 ^ 32 by decide) len' c key
  refine ⟨blob, _, opened, counted, fun verified => ?_⟩
  have read := (ResidualField.verified_iff len').mp verified
  simp only [payload] at read
  have same : tags = scramble tags := Except.ok.inj (tagged.symm.trans read)
  exact scramble_ne (by rw [len]; decide) same.symm

/-- The constructor does not check the page tags: it accepts a field whose only page has a
wrong tag, its lookup abstains and no map builds its blob. -/
theorem accepted_residual_not_built : ∃ (blob : Bytes) (f : ResidualField),
    ResidualField.init stdCrypto blob (zeros 32) = .ok f ∧
    f.lookupAt stdCrypto 0 f.scopeId f.bulkEpoch = .abstainIntegrity ∧
    ∀ (n : Nat) (corrections : Dict Nat Int) (pageSize : Nat) (scopeId bulkEpoch : Int)
      (f' : ResidualField),
      ResidualField.build stdCrypto n corrections pageSize scopeId bulkEpoch (zeros 32) = .ok f' →
      f'.blob ≠ blob := by
  obtain ⟨blob, f, opened, counted, wrong⟩ := exists_unverified stdCrypto (zeros 32)
  obtain ⟨-, -, paged, -⟩ := ResidualField.init_eq_ok.mp opened
  refine ⟨blob, f, opened, ?_, ?_⟩
  · rw [ResidualField.verified_iff_answers paged, not_forall] at wrong
    obtain ⟨ordinal, spoken⟩ := wrong
    rw [not_not, ResidualField.lookupAt_self, counted] at spoken
    by_cases inside : 0 ≤ ordinal ∧ ordinal < (1 : Nat)
    · have zero : ordinal = 0 := by omega
      rw [if_pos inside, zero] at spoken
      rw [ResidualField.lookupAt_self, counted, if_pos (by decide)]
      exact spoken
    · rw [if_neg inside] at spoken
      cases spoken
  · intro n corrections pageSize scopeId bulkEpoch f' built same
    obtain ⟨-, -, -, -, -, verified, opened'⟩ := ResidualField.build_eq_ok.mp built
    rw [same, opened] at opened'
    cases opened'
    exact wrong verified

end ProofRay.Engine

