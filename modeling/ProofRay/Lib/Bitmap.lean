/- Bit strings packed into bytes, most significant bit first, with a directory of running counts. -/

import Mathlib.Data.List.Basic
import Mathlib.Tactic.IntervalCases
import ProofRay.Lib.Struct

namespace ProofRay.Lib.Bitmap

open Lib.Struct (Bytes)

/-- Bit `k` of a byte, counted from the most significant. -/
def byteBit (b : UInt8) (k : Nat) : Bool := b.toNat.testBit (7 - k)

def byteBits (b : UInt8) : List Bool := (List.range 8).map (byteBit b)

/-- `numpy.unpackbits`. -/
def unpackBits (bs : Bytes) : List Bool := bs.flatMap byteBits

/-- The byte whose bits, most significant first, are `f 0`, ..., `f 7`. -/
def byteOf (f : Nat → Bool) : UInt8 :=
  UInt8.ofNat ((List.range 8).foldl (fun n k => 2 * n + (f k).toNat) 0)

/-- `numpy.packbits`: the last byte is filled up with zeros. -/
def packBits (bits : List Bool) : Bytes :=
  (List.range ((bits.length + 7) / 8)).map fun j => byteOf fun k => bits.getD (8 * j + k) false

/-- `_get_bit`. -/
def bitAt (bs : Bytes) (i : Nat) : Bool := byteBit (bs.getD (i / 8) 0) (i % 8)

def popcount (b : UInt8) : Nat := (byteBits b).count true

@[simp] theorem length_byteBits (b : UInt8) : (byteBits b).length = 8 := by
  simp [byteBits]

@[simp] theorem length_unpackBits (bs : Bytes) : (unpackBits bs).length = 8 * bs.length := by
  induction bs with
  | nil => rfl
  | cons b bs ih =>
    simp only [unpackBits, List.flatMap_cons, List.length_append, length_byteBits,
      List.length_cons] at ih ⊢
    omega

@[simp] theorem length_packBits (bits : List Bool) :
    (packBits bits).length = (bits.length + 7) / 8 := by
  simp [packBits]

theorem byteBit_byteOf (f : Nat → Bool) {k : Nat} (h : k < 8) : byteBit (byteOf f) k = f k := by
  have finite : ∀ b₀ b₁ b₂ b₃ b₄ b₅ b₆ b₇ : Bool, ∀ k < 8,
      byteBit (byteOf fun i => [b₀, b₁, b₂, b₃, b₄, b₅, b₆, b₇].getD i false) k =
        [b₀, b₁, b₂, b₃, b₄, b₅, b₆, b₇].getD k false := by
    decide
  have same : byteOf f =
      byteOf fun i => [f 0, f 1, f 2, f 3, f 4, f 5, f 6, f 7].getD i false := rfl
  rw [same, finite _ _ _ _ _ _ _ _ k h]
  interval_cases k <;> rfl

variable {bits : List Bool} {i : Nat}

theorem getElem?_unpackBits (bs : Bytes) (h : i < 8 * bs.length) :
    (unpackBits bs)[i]? = some (bitAt bs i) := by
  induction bs generalizing i with
  | nil => simp at h
  | cons b bs ih =>
    simp only [List.length_cons] at h
    simp only [unpackBits, List.flatMap_cons]
    by_cases inHead : i < 8
    · rw [List.getElem?_append_left (by simpa using inHead)]
      have zero : i / 8 = 0 := by omega
      have self : i % 8 = i := by omega
      simp [byteBits, bitAt, zero, self, inHead]
    · rw [List.getElem?_append_right (by simp only [length_byteBits]; omega), length_byteBits]
      have rest := ih (i := i - 8) (by omega)
      have shift : i / 8 = (i - 8) / 8 + 1 := by omega
      have same : i % 8 = (i - 8) % 8 := by omega
      simp only [unpackBits] at rest
      rw [rest]
      simp [bitAt, shift, same]

theorem bitAt_packBits (bits : List Bool) (i : Nat) :
    bitAt (packBits bits) i = bits.getD i false := by
  have mod : i % 8 < 8 := Nat.mod_lt i (by decide)
  by_cases inside : i / 8 < (bits.length + 7) / 8
  · have split : 8 * (i / 8) + i % 8 = i := by omega
    have byte : (packBits bits).getD (i / 8) 0 =
        byteOf fun k => bits.getD (8 * (i / 8) + k) false := by
      simp [packBits, inside]
    rw [bitAt, byte, byteBit_byteOf _ mod, split]
  · have pastBytes : (packBits bits).length ≤ i / 8 := by
      rw [length_packBits]
      omega
    have pastBits : bits.length ≤ i := by omega
    have none_set : ∀ k < 8, byteBit 0 k = false := by decide
    simp only [bitAt, List.getD_eq_getElem?_getD, List.getElem?_eq_none pastBytes,
      List.getElem?_eq_none pastBits, Option.getD_none, none_set _ mod]

theorem take_unpackBits_packBits (bits : List Bool) :
    (unpackBits (packBits bits)).take bits.length = bits := by
  apply List.ext_getElem?
  intro i
  by_cases inside : i < bits.length
  · have inBytes : i < 8 * (packBits bits).length := by
      rw [length_packBits]
      omega
    rw [List.getElem?_take_of_lt inside, getElem?_unpackBits _ inBytes, bitAt_packBits]
    simp [List.getD_eq_getElem?_getD, List.getElem?_eq_getElem inside]
  · have past : bits.length ≤ i := Nat.le_of_not_lt inside
    rw [List.getElem?_eq_none past, List.getElem?_eq_none]
    simp only [List.length_take, length_unpackBits, length_packBits]
    omega

theorem drop_unpackBits_packBits (bits : List Bool) :
    ((unpackBits (packBits bits)).drop bits.length).count true = 0 := by
  rw [List.count_eq_zero]
  intro member
  obtain ⟨k, found⟩ := List.mem_iff_getElem?.mp member
  rw [List.getElem?_drop] at found
  obtain ⟨bound, -⟩ := List.getElem?_eq_some_iff.mp found
  rw [length_unpackBits] at bound
  rw [getElem?_unpackBits _ bound, bitAt_packBits] at found
  simp at found

theorem count_unpackBits_packBits (bits : List Bool) :
    (unpackBits (packBits bits)).count true = bits.count true := by
  have whole := congrArg (List.count true)
    (List.take_append_drop bits.length (unpackBits (packBits bits)))
  rw [List.count_append, take_unpackBits_packBits, drop_unpackBits_packBits] at whole
  exact whole.symm

private theorem byteOf_byteBit (b : UInt8) : byteOf (byteBit b) = b := by
  have finite : ∀ n < 256, byteOf (byteBit (UInt8.ofNat n)) = UInt8.ofNat n := by decide +kernel
  have byte := finite b.toNat b.toNat_lt
  rwa [UInt8.ofNat_toNat] at byte

variable {bs : Bytes}

theorem bitAt_eq_false_of_padding {n i : Nat} (padding : ((unpackBits bs).drop n).count true = 0)
    (past : n ≤ i) (inside : i < 8 * bs.length) : bitAt bs i = false := by
  rw [List.count_eq_zero] at padding
  by_contra set
  apply padding
  rw [List.mem_iff_getElem?]
  refine ⟨i - n, ?_⟩
  rw [List.getElem?_drop, Nat.add_sub_cancel' past, getElem?_unpackBits bs inside,
    Bool.eq_true_of_not_eq_false set]

theorem packBits_unpackBits {n : Nat} (width : bs.length = (n + 7) / 8)
    (padding : ((unpackBits bs).drop n).count true = 0) :
    packBits ((unpackBits bs).take n) = bs := by
  have size : ((unpackBits bs).take n).length = n := by
    rw [List.length_take, length_unpackBits]
    omega
  apply List.ext_getElem
  · rw [length_packBits, size, width]
  · intro j _ inside
    have bits : ∀ k < 8, ((unpackBits bs).take n).getD (8 * j + k) false = byteBit bs[j] k := by
      intro k small
      have bound : 8 * j + k < 8 * bs.length := by omega
      have byte : (8 * j + k) / 8 = j := by omega
      have place : (8 * j + k) % 8 = k := by omega
      have bit : bitAt bs (8 * j + k) = byteBit bs[j] k := by
        rw [bitAt, byte, place, List.getD_eq_getElem?_getD, List.getElem?_eq_getElem inside,
          Option.getD_some]
      by_cases held : 8 * j + k < n
      · rw [List.getD_eq_getElem?_getD, List.getElem?_take_of_lt held,
          getElem?_unpackBits bs bound, Option.getD_some, bit]
      · rw [List.getD_eq_getElem?_getD, List.getElem?_eq_none (by omega), Option.getD_none, ← bit]
        exact (bitAt_eq_false_of_padding padding (Nat.le_of_not_lt held) bound).symm
    calc
      (packBits ((unpackBits bs).take n))[j] =
          byteOf fun k => ((unpackBits bs).take n).getD (8 * j + k) false := by
        simp [packBits]
      _ = byteOf (byteBit bs[j]) := by
        rw [byteOf, byteOf]
        congr 1
        apply List.foldl_ext
        intro acc k member
        rw [bits k (List.mem_range.mp member)]
      _ = bs[j] := byteOf_byteBit _

variable (block : Nat)

/-- The running count of set bits at the start of each of the next `n` blocks. -/
def rankDirectoryFrom : Nat → List Bool → Nat → List Nat
  | 0, _, _ => []
  | n + 1, bits, acc =>
    acc :: rankDirectoryFrom n (bits.drop block) (acc + (bits.take block).count true)

def rankDirectory (bits : List Bool) : List Nat :=
  rankDirectoryFrom block ((bits.length + block - 1) / block) bits 0

/-- `_rank1`: the directory's entry for the block, the whole bytes of the block before the
position, and the bits of the last byte. -/
def rank1 (bitmap : Bytes) (directory : List Nat) (i : Nat) : Nat :=
  let start := i / block * block / 8
  directory.getD (i / block) 0 +
    (((bitmap.drop start).take (i / 8 - start)).map popcount).sum +
    ((List.range (i % 8)).map fun k => (bitAt bitmap (8 * (i / 8) + k)).toNat).sum

theorem length_rankDirectory (bits : List Bool) :
    (rankDirectory block bits).length = (bits.length + block - 1) / block := by
  have general : ∀ n bits acc, (rankDirectoryFrom block n bits acc).length = n := by
    intro n
    induction n with
    | zero => intro bits acc; rfl
    | succ n ih => intro bits acc; simp [rankDirectoryFrom, ih]
  exact general _ _ _

theorem le_of_mem_rankDirectory {r : Nat} (member : r ∈ rankDirectory block bits) :
    r ≤ bits.count true := by
  have general : ∀ n bits acc, r ∈ rankDirectoryFrom block n bits acc →
      r ≤ acc + bits.count true := by
    intro n
    induction n with
    | zero => intro bits acc member; cases member
    | succ n ih =>
      intro bits acc member
      rcases List.mem_cons.mp member with rfl | later
      · omega
      · have bound := ih _ _ later
        have whole := congrArg (List.count true) (List.take_append_drop block bits)
        rw [List.count_append] at whole
        omega
  have bound := general _ _ _ member
  omega

private theorem getElem?_rankDirectoryFrom {n k : Nat} (h : k < n) (bits : List Bool) (acc : Nat) :
    (rankDirectoryFrom block n bits acc)[k]? = some (acc + (bits.take (k * block)).count true) := by
  induction n generalizing k bits acc with
  | zero => omega
  | succ n ih =>
    cases k with
    | zero => simp [rankDirectoryFrom]
    | succ k =>
      have split : bits.take ((k + 1) * block) =
          bits.take block ++ (bits.drop block).take (k * block) := by
        rw [← List.take_add]
        congr 1
        ring
      simp only [rankDirectoryFrom, List.getElem?_cons_succ, ih (by omega : k < n), split,
        List.count_append]
      congr 1
      omega

theorem getD_rankDirectory (inside : i < bits.length) (nonempty : 0 < block) :
    (rankDirectory block bits).getD (i / block) 0 = (bits.take (i / block * block)).count true := by
  have low : i / block * block ≤ i := Nat.div_mul_le_self i block
  have lt : i / block < (bits.length + block - 1) / block := by
    rw [Nat.lt_iff_add_one_le, Nat.le_div_iff_mul_le nonempty, Nat.add_mul, Nat.one_mul]
    omega
  rw [List.getD_eq_getElem?_getD, rankDirectory, getElem?_rankDirectoryFrom block lt]
  simp

private theorem sum_popcount (bs : Bytes) : (bs.map popcount).sum = (unpackBits bs).count true := by
  induction bs with
  | nil => rfl
  | cons b bs ih =>
    simp only [List.map_cons, List.sum_cons, unpackBits, List.flatMap_cons, List.count_append] at ih ⊢
    rw [ih, popcount]

private theorem unpackBits_drop (bs : Bytes) (n : Nat) :
    unpackBits (bs.drop n) = (unpackBits bs).drop (8 * n) := by
  induction n generalizing bs with
  | zero => simp
  | succ n ih =>
    cases bs with
    | nil => simp [unpackBits]
    | cons b bs =>
      have step : 8 * (n + 1) = (byteBits b).length + 8 * n := by
        rw [length_byteBits]
        ring
      rw [List.drop_succ_cons, ih, unpackBits, unpackBits, List.flatMap_cons, step,
        List.drop_length_add_append]

private theorem unpackBits_take (bs : Bytes) (n : Nat) :
    unpackBits (bs.take n) = (unpackBits bs).take (8 * n) := by
  induction n generalizing bs with
  | zero => simp [unpackBits]
  | succ n ih =>
    cases bs with
    | nil => simp [unpackBits]
    | cons b bs =>
      have step : 8 * (n + 1) = (byteBits b).length + 8 * n := by
        rw [length_byteBits]
        ring
      have tail := ih bs
      simp only [unpackBits] at tail
      rw [List.take_succ_cons, unpackBits, unpackBits, List.flatMap_cons, List.flatMap_cons, tail,
        step, List.take_length_add_append]

private theorem sum_bits (bitmap : Bytes) (lo : Nat) (n : Nat)
    (bound : lo + n ≤ 8 * bitmap.length) :
    ((List.range n).map fun k => (bitAt bitmap (lo + k)).toNat).sum =
      (((unpackBits bitmap).drop lo).take n).count true := by
  induction n with
  | zero => simp
  | succ n ih =>
    have bit : ((unpackBits bitmap).drop lo)[n]? = some (bitAt bitmap (lo + n)) := by
      rw [List.getElem?_drop]
      exact getElem?_unpackBits bitmap (by omega)
    rw [List.range_succ, List.map_append, List.sum_append, ih (by omega), List.take_add_one, bit,
      List.count_append]
    cases set : bitAt bitmap (lo + n) <;> simp [set]

/-- With the directory of the bit string `_rank1` counts the set bits before the position. -/
theorem rank1_eq {bitmap : Bytes} (aligned : 8 ∣ block) (nonempty : 0 < block)
    (packed : bits = (unpackBits bitmap).take bits.length) (inside : i < bits.length) :
    rank1 block bitmap (rankDirectory block bits) i = (bits.take i).count true := by
  have long : bits.length ≤ 8 * bitmap.length := by
    have := congrArg List.length packed
    simp only [List.length_take, length_unpackBits] at this
    omega
  obtain ⟨w, rfl⟩ := aligned
  have low : i / (8 * w) * (8 * w) ≤ i := Nat.div_mul_le_self i (8 * w)
  have start : i / (8 * w) * (8 * w) / 8 = i / (8 * w) * w := by
    rw [← Nat.mul_assoc, Nat.mul_comm (i / (8 * w)) 8, Nat.mul_assoc]
    exact Nat.mul_div_cancel_left _ (by decide)
  have scaled : i / (8 * w) * (8 * w) = 8 * (i / (8 * w) * w) := by ring
  rw [scaled] at low
  generalize hs : i / (8 * w) * w = s at *
  have whole : (((bitmap.drop s).take (i / 8 - s)).map popcount).sum =
      (((unpackBits bitmap).drop (8 * s)).take (8 * (i / 8) - 8 * s)).count true := by
    rw [sum_popcount, unpackBits_take, unpackBits_drop, Nat.mul_sub]
  have last := sum_bits bitmap (8 * (i / 8)) (i % 8) (by omega)
  have pieces : (bits.take i) =
      (unpackBits bitmap).take (8 * s) ++
        (((unpackBits bitmap).drop (8 * s)).take (8 * (i / 8) - 8 * s) ++
          ((unpackBits bitmap).drop (8 * (i / 8))).take (i % 8)) := by
    have reach : bits.take i = (unpackBits bitmap).take i := by
      rw [packed, List.take_take, Nat.min_eq_left (by omega)]
    have front : 8 * s ≤ 8 * (i / 8) := by omega
    have joined : (unpackBits bitmap).take (8 * s + (8 * (i / 8) - 8 * s)) =
        (unpackBits bitmap).take (8 * s) ++
          ((unpackBits bitmap).drop (8 * s)).take (8 * (i / 8) - 8 * s) := List.take_add
    rw [Nat.add_sub_cancel' front] at joined
    have second : i = 8 * (i / 8) + i % 8 := by omega
    calc
      bits.take i = (unpackBits bitmap).take (8 * (i / 8) + i % 8) := by rw [reach, ← second]
      _ = (unpackBits bitmap).take (8 * (i / 8)) ++
          ((unpackBits bitmap).drop (8 * (i / 8))).take (i % 8) := List.take_add
      _ = ((unpackBits bitmap).take (8 * s) ++
            ((unpackBits bitmap).drop (8 * s)).take (8 * (i / 8) - 8 * s)) ++
          ((unpackBits bitmap).drop (8 * (i / 8))).take (i % 8) := by rw [joined]
      _ = _ := List.append_assoc _ _ _
  have entry := getD_rankDirectory (8 * w) inside nonempty
  rw [scaled] at entry
  have prefix_bits : bits.take (8 * s) = (unpackBits bitmap).take (8 * s) := by
    rw [packed, List.take_take, Nat.min_eq_left (by omega)]
  rw [rank1, start, entry, whole, last, pieces, List.count_append, List.count_append,
    prefix_bits, Nat.add_assoc]

end ProofRay.Lib.Bitmap
