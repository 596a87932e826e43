/- Sparse arrays of bytes: a bitmap of the positions that hold a value, the values, and a rank
   directory. -/

import Mathlib.Data.Finset.Filter
import Mathlib.Data.Finset.Range
import ProofRay.Lib.Bitmap

namespace ProofRay.Lib

open Lib.Struct (Bytes)
open Lib.Bitmap

/-- A sparse array whose bitmap, directory and payload agree. -/
structure SparseBytes (block : Nat) where
  size : Nat
  bitmap : Bytes
  directory : List Nat
  payload : Bytes
  bitmap_length : bitmap.length = (size + 7) / 8
  popcount_eq : (unpackBits bitmap).count true = payload.length
  padding : ((unpackBits bitmap).drop size).count true = 0
  directory_eq : directory = rankDirectory block ((unpackBits bitmap).take size)

namespace SparseBytes

variable {block : Nat}

/-- The bits of the positions below `size`. -/
def bits (s : SparseBytes block) : List Bool := (unpackBits s.bitmap).take s.size

def support (s : SparseBytes block) : Finset Nat :=
  (Finset.range s.size).filter fun i => bitAt s.bitmap i = true

def rank (s : SparseBytes block) (i : Nat) : Nat := rank1 block s.bitmap s.directory i

def get? (s : SparseBytes block) (i : Nat) : Option UInt8 :=
  if i < s.size ∧ bitAt s.bitmap i then s.payload[s.rank i]? else none

theorem size_le (s : SparseBytes block) : s.size ≤ 8 * s.bitmap.length := by
  rw [s.bitmap_length]
  omega

@[simp] theorem length_bits (s : SparseBytes block) : s.bits.length = s.size := by
  have := s.size_le
  simp only [bits, List.length_take, length_unpackBits]
  omega

variable {i : Nat}

theorem getElem?_bits (s : SparseBytes block) (inside : i < s.size) :
    s.bits[i]? = some (bitAt s.bitmap i) := by
  have := s.size_le
  rw [bits, List.getElem?_take_of_lt inside]
  exact getElem?_unpackBits s.bitmap (by omega)

@[simp] theorem mem_support (s : SparseBytes block) (i : Nat) :
    i ∈ s.support ↔ i < s.size ∧ bitAt s.bitmap i = true := by
  simp [support]

theorem count_bits (s : SparseBytes block) : s.bits.count true = s.payload.length := by
  have whole := List.take_append_drop s.size (unpackBits s.bitmap)
  have counts := congrArg (List.count true) whole
  rw [List.count_append, s.padding, s.popcount_eq] at counts
  exact counts

theorem rank_eq (s : SparseBytes block) (aligned : 8 ∣ block) (nonempty : 0 < block)
    (inside : i < s.size) : s.rank i = (s.bits.take i).count true := by
  have packed : s.bits = (unpackBits s.bitmap).take s.bits.length := by
    rw [length_bits]
    rfl
  rw [rank, s.directory_eq]
  have inside' : i < s.bits.length := by rwa [length_bits]
  exact rank1_eq block aligned nonempty packed inside'

private theorem count_take_lt {l : List Bool} (set : l[i]? = some true) :
    (l.take i).count true < l.count true := by
  have whole := congrArg (List.count true) (List.take_append_drop i l)
  obtain ⟨inside, value⟩ := List.getElem?_eq_some_iff.mp set
  rw [List.count_append, List.drop_eq_getElem_cons inside, value, List.count_cons_self] at whole
  omega

theorem rank_lt (s : SparseBytes block) (aligned : 8 ∣ block) (nonempty : 0 < block)
    (member : i ∈ s.support) : s.rank i < s.payload.length := by
  obtain ⟨inside, set⟩ := s.mem_support i |>.mp member
  rw [s.rank_eq aligned nonempty inside, ← s.count_bits]
  apply count_take_lt
  rw [s.getElem?_bits inside, set]

theorem get?_of_mem (s : SparseBytes block) (aligned : 8 ∣ block) (nonempty : 0 < block)
    (member : i ∈ s.support) : ∃ v, s.get? i = some v := by
  have inside := s.rank_lt aligned nonempty member
  exact ⟨_, by rw [get?, if_pos (s.mem_support i |>.mp member), List.getElem?_eq_getElem inside]⟩

theorem get?_of_not_mem (s : SparseBytes block) (outside : i ∉ s.support) : s.get? i = none := by
  rw [get?, if_neg]
  exact fun member => outside (s.mem_support i |>.mpr member)

/-- The first of the agreements that fails. -/
inductive Fault where
  | popcount
  | padding
  | directory
  deriving DecidableEq, Repr

def validate (block size : Nat) (bitmap : Bytes) (directory : List Nat) (payload : Bytes)
    (width : bitmap.length = (size + 7) / 8) : Except Fault (SparseBytes block) :=
  if popcount : (unpackBits bitmap).count true = payload.length then
    if padding : ((unpackBits bitmap).drop size).count true = 0 then
      if agree : directory = rankDirectory block ((unpackBits bitmap).take size) then
        .ok ⟨size, bitmap, directory, payload, width, popcount, padding, agree⟩
      else .error .directory
    else .error .padding
  else .error .popcount

theorem validate_self (s : SparseBytes block) :
    validate block s.size s.bitmap s.directory s.payload s.bitmap_length = .ok s := by
  rw [validate, dif_pos s.popcount_eq, dif_pos s.padding, dif_pos s.directory_eq]

theorem validate_eq_ok {size : Nat} {bitmap : Bytes} {directory : List Nat} {payload : Bytes}
    {width : bitmap.length = (size + 7) / 8} {s : SparseBytes block} :
    validate block size bitmap directory payload width = .ok s ↔
      s.size = size ∧ s.bitmap = bitmap ∧ s.directory = directory ∧ s.payload = payload := by
  constructor
  · intro valid
    rw [validate] at valid
    split at valid
    · split at valid
      · split at valid
        · cases valid
          exact ⟨rfl, rfl, rfl, rfl⟩
        · cases valid
      · cases valid
    · cases valid
  · intro parts
    obtain ⟨rfl, rfl, rfl, rfl⟩ := parts
    exact s.validate_self

private theorem count_isSome (cells : List (Option UInt8)) :
    (cells.map Option.isSome).count true = (cells.filterMap id).length := by
  induction cells with
  | nil => rfl
  | cons cell cells ih =>
    cases cell with
    | none => simpa using ih
    | some v => simpa using ih

def ofCells (block : Nat) (cells : List (Option UInt8)) : SparseBytes block where
  size := (cells.map Option.isSome).length
  bitmap := packBits (cells.map Option.isSome)
  directory := rankDirectory block (cells.map Option.isSome)
  payload := cells.filterMap id
  bitmap_length := length_packBits _
  popcount_eq := by rw [count_unpackBits_packBits, count_isSome]
  padding := drop_unpackBits_packBits _
  directory_eq := by rw [take_unpackBits_packBits]

@[simp] theorem size_ofCells (cells : List (Option UInt8)) :
    (ofCells block cells).size = cells.length := List.length_map _

@[simp] theorem bits_ofCells (cells : List (Option UInt8)) :
    (ofCells block cells).bits = cells.map Option.isSome := take_unpackBits_packBits _

private theorem bitAt_ofCells (cells : List (Option UInt8)) (i : Nat) :
    bitAt (ofCells block cells).bitmap i = (cells.getD i none).isSome := by
  simp only [ofCells, bitAt_packBits, List.getD_eq_getElem?_getD, List.getElem?_map]
  cases cells[i]? <;> rfl

theorem mem_support_ofCells (cells : List (Option UInt8)) (i : Nat) :
    i ∈ (ofCells block cells).support ↔ (cells.getD i none).isSome := by
  rw [mem_support, bitAt_ofCells, size_ofCells, and_iff_right_iff_imp]
  intro some
  by_contra past
  rw [List.getD_eq_getElem?_getD, List.getElem?_eq_none (Nat.le_of_not_lt past)] at some
  simp at some

private theorem filterMap_at_rank {cells : List (Option UInt8)} {v : UInt8}
    (cell : cells[i]? = some (some v)) :
    (cells.filterMap id)[((cells.map Option.isSome).take i).count true]? = some v := by
  induction cells generalizing i with
  | nil => simp at cell
  | cons head cells ih =>
    cases i with
    | zero =>
      cases cell
      rfl
    | succ i =>
      have tail := ih (i := i) (by simpa using cell)
      cases head with
      | none => simpa using tail
      | some w => simpa using tail

theorem get?_ofCells (aligned : 8 ∣ block) (nonempty : 0 < block) (cells : List (Option UInt8))
    (i : Nat) : (ofCells block cells).get? i = cells.getD i none := by
  cases cell : cells[i]? with
  | none =>
    have blank : i ∉ (ofCells block cells).support := by
      rw [mem_support_ofCells, List.getD_eq_getElem?_getD, cell]
      simp
    rw [get?_of_not_mem _ blank, List.getD_eq_getElem?_getD, cell]
    rfl
  | some content =>
    obtain ⟨inside, -⟩ := List.getElem?_eq_some_iff.mp cell
    rw [get?, bitAt_ofCells, List.getD_eq_getElem?_getD, cell, size_ofCells]
    cases content with
    | none => simp
    | some v =>
      rw [rank_eq _ aligned nonempty (by rwa [size_ofCells]), bits_ofCells]
      simp only [inside, Option.getD_some, Option.isSome_some, and_self, if_true]
      exact filterMap_at_rank cell

theorem ext_parts {s t : SparseBytes block} (size : s.size = t.size) (bitmap : s.bitmap = t.bitmap)
    (payload : s.payload = t.payload) : s = t := by
  have directory : s.directory = t.directory := by
    rw [s.directory_eq, t.directory_eq, size, bitmap]
  cases s
  cases t
  simp only [mk.injEq]
  exact ⟨size, bitmap, directory, payload⟩

theorem length_directory (s : SparseBytes block) :
    s.directory.length = (s.size + block - 1) / block := by
  rw [s.directory_eq, length_rankDirectory]
  exact congrArg (fun n => (n + block - 1) / block) s.length_bits

theorem length_payload_le (s : SparseBytes block) : s.payload.length ≤ s.size := by
  rw [← s.count_bits, ← s.length_bits]
  exact List.count_le_length

theorem le_of_mem_directory (s : SparseBytes block) {r : Nat} (member : r ∈ s.directory) :
    r ≤ s.size := by
  rw [s.directory_eq] at member
  have bound := le_of_mem_rankDirectory block member
  have count : s.bits.count true = s.payload.length := s.count_bits
  have within := s.length_payload_le
  rw [bits] at count
  omega

def cells (s : SparseBytes block) : List (Option UInt8) := (List.range s.size).map s.get?

@[simp] theorem length_cells (s : SparseBytes block) : s.cells.length = s.size := by
  simp [cells]

variable {k : Nat}

private theorem exists_count_take {bits : List Bool} (bound : k < bits.count true) :
    ∃ i, bits[i]? = some true ∧ (bits.take i).count true = k := by
  induction bits generalizing k with
  | nil => simp at bound
  | cons bit bits ih =>
    cases bit with
    | false =>
      obtain ⟨i, set, count⟩ := ih (k := k) (by simpa using bound)
      exact ⟨i + 1, by simpa using set, by simpa using count⟩
    | true =>
      cases k with
      | zero => exact ⟨0, rfl, rfl⟩
      | succ k =>
        obtain ⟨i, set, count⟩ := ih (k := k) (by simpa using bound)
        exact ⟨i + 1, by simpa using set, by simpa using count⟩

theorem exists_rank_eq (s : SparseBytes block) (aligned : 8 ∣ block) (nonempty : 0 < block)
    (bound : k < s.payload.length) : ∃ i ∈ s.support, s.rank i = k := by
  rw [← s.count_bits] at bound
  obtain ⟨i, set, count⟩ := exists_count_take bound
  have inside : i < s.size := by
    obtain ⟨inside, -⟩ := List.getElem?_eq_some_iff.mp set
    rwa [length_bits] at inside
  rw [s.getElem?_bits inside, Option.some.injEq] at set
  exact ⟨i, s.mem_support i |>.mpr ⟨inside, set⟩,
    by rw [s.rank_eq aligned nonempty inside, count]⟩

private theorem filterMap_ranks (bits : List Bool) (payload : Bytes)
    (full : bits.count true = payload.length) :
    (List.range bits.length).filterMap
      (fun i => if bits.getD i false then payload[(bits.take i).count true]? else none) =
        payload := by
  induction bits generalizing payload with
  | nil =>
    rw [List.eq_nil_of_length_eq_zero (l := payload) (by simpa using full.symm)]
    rfl
  | cons bit bits ih =>
    rw [List.length_cons, List.range_succ_eq_map]
    cases bit with
    | false =>
      have rest := ih payload (by simpa using full)
      simpa [List.filterMap_map, Function.comp_def] using rest
    | true =>
      cases payload with
      | nil => simp at full
      | cons b payload =>
        have rest := ih payload (by simpa using full)
        simpa [List.filterMap_map, Function.comp_def] using rest

theorem ofCells_cells (s : SparseBytes block) (aligned : 8 ∣ block) (nonempty : 0 < block) :
    ofCells block s.cells = s := by
  have flags : s.cells.map Option.isSome = s.bits := by
    apply List.ext_getElem?
    intro i
    by_cases inside : i < s.size
    · rw [s.getElem?_bits inside]
      simp only [cells, List.map_map, List.getElem?_map, List.getElem?_range inside,
        Option.map_some, Function.comp_apply, Option.some.injEq]
      by_cases member : i ∈ s.support
      · obtain ⟨v, found⟩ := s.get?_of_mem aligned nonempty member
        rw [found, (s.mem_support i |>.mp member).2, Option.isSome_some]
      · have clear : bitAt s.bitmap i = false := by
          by_contra set
          exact member (s.mem_support i |>.mpr ⟨inside, Bool.eq_true_of_not_eq_false set⟩)
        rw [s.get?_of_not_mem member, clear, Option.isSome_none]
    · rw [List.getElem?_eq_none (by simpa using inside),
        List.getElem?_eq_none (by simpa using inside)]
  have values : s.cells.filterMap id = s.payload := by
    have ranks := filterMap_ranks s.bits s.payload s.count_bits
    rw [length_bits] at ranks
    rw [cells, List.filterMap_map, ← ranks]
    apply List.filterMap_congr
    intro i member
    have inside := List.mem_range.mp member
    have bit : s.bits.getD i false = bitAt s.bitmap i := by
      rw [List.getD_eq_getElem?_getD, s.getElem?_bits inside, Option.getD_some]
    simp only [Function.comp_apply, id, get?, inside, true_and, bit,
      s.rank_eq aligned nonempty inside]
  apply ext_parts
  · rw [size_ofCells, length_cells]
  · show packBits (s.cells.map Option.isSome) = s.bitmap
    rw [flags]
    exact packBits_unpackBits s.bitmap_length s.padding
  · exact values

end SparseBytes
end ProofRay.Lib
