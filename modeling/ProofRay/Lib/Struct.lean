/- Fixed-width binary records: little-endian integers and byte strings packed
   one after the other, as a format string of a `struct` module declares them. -/

import Mathlib.Algebra.Order.Ring.Nat
import Mathlib.Tactic.Positivity.Basic
import Mathlib.Tactic.Ring

namespace ProofRay.Lib.Struct

abbrev Bytes := List UInt8

/-- The `w` little-endian bytes of `n`. -/
def leBytes : Nat → Nat → Bytes
  | 0, _ => []
  | w + 1, n => UInt8.ofNat n :: leBytes w (n / 256)

def leNat : Bytes → Nat
  | [] => 0
  | b :: bs => b.toNat + 256 * leNat bs

@[simp] theorem length_leBytes (w n : Nat) : (leBytes w n).length = w := by
  induction w generalizing n with
  | zero => rfl
  | succ w ih => simp only [leBytes, List.length_cons, ih]

theorem leNat_leBytes (w n : Nat) (h : n < 256 ^ w) : leNat (leBytes w n) = n := by
  induction w generalizing n with
  | zero =>
    have : n = 0 := by simpa using h
    subst this
    rfl
  | succ w ih =>
    have hdiv : n / 256 < 256 ^ w := by
      apply Nat.div_lt_of_lt_mul
      rwa [Nat.pow_succ, Nat.mul_comm] at h
    simp only [leBytes, leNat, ih (n / 256) hdiv, UInt8.toNat_ofNat']
    omega

theorem leNat_lt (bs : Bytes) : leNat bs < 256 ^ bs.length := by
  induction bs with
  | nil => simp [leNat]
  | cons b bs ih =>
    have hb : b.toNat < 256 := b.toNat_lt
    simp only [leNat, List.length_cons, Nat.pow_succ]
    omega

theorem leBytes_leNat (bs : Bytes) : leBytes bs.length (leNat bs) = bs := by
  induction bs with
  | nil => rfl
  | cons b bs ih =>
    have hb : b.toNat < 256 := b.toNat_lt
    have hdiv : (b.toNat + 256 * leNat bs) / 256 = leNat bs := by omega
    have hmod : UInt8.ofNat (b.toNat + 256 * leNat bs) = b := by
      apply UInt8.toNat_inj.mp
      rw [UInt8.toNat_ofNat']
      omega
    simp only [List.length_cons, leBytes, leNat, hdiv, hmod, ih]

/-- One field of a packed record. -/
inductive Field where
  | unsigned (width : Nat)
  | signed (width : Nat)
  | bytes (width : Nat)
  deriving DecidableEq, Repr

namespace Field

abbrev u8 : Field := .unsigned 1
abbrev u16 : Field := .unsigned 2
abbrev u32 : Field := .unsigned 4
abbrev u64 : Field := .unsigned 8
abbrev i32 : Field := .signed 4

def width : Field → Nat
  | .unsigned w => w
  | .signed w => w
  | .bytes w => w

abbrev Carrier : Field → Type
  | .unsigned _ => Int
  | .signed _ => Int
  | .bytes _ => Bytes

abbrev InUnsigned (w : Nat) (v : Int) : Prop := 0 ≤ v ∧ v < 256 ^ w

abbrev InSigned (w : Nat) (v : Int) : Prop := -(256 ^ w / 2) ≤ v ∧ v < 256 ^ w / 2

def Fits : (f : Field) → f.Carrier → Prop
  | .unsigned w, v => InUnsigned w v
  | .signed w, v => InSigned w v
  | .bytes w, b => b.length = w

instance : (f : Field) → (v : f.Carrier) → Decidable (f.Fits v)
  | .unsigned w, v => inferInstanceAs (Decidable (InUnsigned w v))
  | .signed w, v => inferInstanceAs (Decidable (InSigned w v))
  | .bytes w, b => inferInstanceAs (Decidable (b.length = w))

def toSigned (w : Nat) (n : Int) : Int := if 2 * n < 256 ^ w then n else n - 256 ^ w

/-- The bytes of one value.  An integer out of range is refused; a byte string
is padded with zeros or cut to the declared width. -/
def pack : (f : Field) → f.Carrier → Option Bytes
  | .unsigned w, v => if InUnsigned w v then some (leBytes w (Int.toNat v)) else none
  | .signed w, v =>
    if InSigned w v then some (leBytes w (Int.toNat (v % (256 ^ w : Int)))) else none
  | .bytes w, b => some ((b ++ List.replicate w 0).take w)

def unpack : (f : Field) → Bytes → f.Carrier
  | .unsigned _, b => (leNat b : Int)
  | .signed w, b => toSigned w (leNat b)
  | .bytes _, b => b

variable {f : Field} {b : Bytes} {v : f.Carrier} {w : Nat}

theorem length_of_pack (h : f.pack v = some b) : b.length = f.width := by
  cases f with
  | unsigned w =>
    simp only [pack] at h
    split at h
    · cases h
      exact length_leBytes _ _
    · cases h
  | signed w =>
    simp only [pack] at h
    split at h
    · cases h
      exact length_leBytes _ _
    · cases h
  | bytes w =>
    cases h
    simp [width]

theorem pack_of_fits (h : f.Fits v) : ∃ b, f.pack v = some b := by
  cases f with
  | unsigned w => exact ⟨_, if_pos h⟩
  | signed w => exact ⟨_, if_pos h⟩
  | bytes w => exact ⟨_, rfl⟩

private theorem toNat_lt_pow {v : Int} (nonneg : 0 ≤ v) (below : v < 256 ^ w) :
    v.toNat < 256 ^ w := by
  have cast : ((v.toNat : Nat) : Int) < ((256 ^ w : Nat) : Int) := by
    rw [Int.toNat_of_nonneg nonneg]
    exact_mod_cast below
  exact_mod_cast cast

private theorem toSigned_emod {v : Int} (range : InSigned w v) : toSigned w (v % 256 ^ w) = v := by
  obtain ⟨low, high⟩ := range
  unfold toSigned
  generalize (256 ^ w : Int) = p at *
  rcases lt_or_ge v 0 with neg | pos
  · have wrap : v % p = v + p := by
      rw [← Int.add_emod_right]
      exact Int.emod_eq_of_lt (by omega) (by omega)
    rw [wrap, if_neg (by omega)]
    omega
  · have same : v % p = v := Int.emod_eq_of_lt pos (by omega)
    rw [same, if_pos (by omega)]

private theorem inSigned_toSigned {n : Int} (nonempty : 0 < w) (range : InUnsigned w n) :
    InSigned w (toSigned w n) := by
  obtain ⟨low, high⟩ := range
  have even : (2 : Int) ∣ 256 ^ w := dvd_pow (by decide) (by omega)
  unfold InSigned toSigned
  generalize (256 ^ w : Int) = p at *
  split <;> omega

theorem unpack_pack (fits : f.Fits v) (h : f.pack v = some b) : f.unpack b = v := by
  cases f with
  | unsigned w =>
    have range : InUnsigned w v := fits
    rw [pack, if_pos range] at h
    cases h
    simp only [unpack, leNat_leBytes w _ (toNat_lt_pow range.1 range.2)]
    exact Int.toNat_of_nonneg range.1
  | signed w =>
    have range : InSigned w v := fits
    have pos : (0 : Int) < 256 ^ w := by positivity
    have below := Int.emod_lt_of_pos v pos
    have nonneg := Int.emod_nonneg v (ne_of_gt pos)
    rw [pack, if_pos range] at h
    cases h
    simp only [unpack, leNat_leBytes w _ (toNat_lt_pow nonneg below), Int.toNat_of_nonneg nonneg]
    exact toSigned_emod range
  | bytes w =>
    simp only [Fits] at fits
    cases h
    simp only [unpack]
    rw [← fits, List.take_left']
    rfl

private theorem emod_toSigned {w n : Nat} (below : n < 256 ^ w) : toSigned w n % 256 ^ w = n := by
  have range : (n : Int) < 256 ^ w := by exact_mod_cast below
  unfold toSigned
  generalize (256 ^ w : Int) = p at *
  split
  · exact Int.emod_eq_of_lt (Int.natCast_nonneg n) range
  · rw [Int.sub_emod_right]
    exact Int.emod_eq_of_lt (Int.natCast_nonneg n) range

/-- Unpacking exactly `width` bytes gives a value that fits. -/
theorem fits_unpack (len : b.length = f.width) (nonempty : 0 < f.width) : f.Fits (f.unpack b) := by
  have low := leNat_lt b
  cases f with
  | unsigned w =>
    simp only [width] at len
    rw [len] at low
    have below : (leNat b : Int) < 256 ^ w := by exact_mod_cast low
    exact ⟨Int.natCast_nonneg _, below⟩
  | signed w =>
    simp only [width] at len nonempty
    rw [len] at low
    exact inSigned_toSigned nonempty ⟨Int.natCast_nonneg _, by exact_mod_cast low⟩
  | bytes w => exact len

/-- The value read from exactly `width` bytes packs back to them. -/
theorem pack_unpack (len : b.length = f.width) (nonempty : 0 < f.width) :
    f.pack (f.unpack b) = some b := by
  have fits := fits_unpack len nonempty
  have low := leNat_lt b
  cases f with
  | unsigned w =>
    simp only [width] at len
    have range : InUnsigned w (leNat b : Int) := fits
    have packed : pack (.unsigned w) (leNat b : Int) = some (leBytes w (leNat b)) := if_pos range
    rw [← len, leBytes_leNat] at packed
    rw [← len]
    exact packed
  | signed w =>
    simp only [width] at len
    rw [len] at low
    have range : InSigned w (toSigned w (leNat b)) := fits
    have packed : pack (.signed w) (toSigned w (leNat b)) = some (leBytes w (leNat b)) := by
      rw [pack, if_pos range, emod_toSigned low, Int.toNat_natCast]
    rw [← len, leBytes_leNat] at packed
    rw [← len]
    exact packed
  | bytes w =>
    simp only [width] at len
    simp only [pack, unpack, Option.some.injEq]
    rw [← len, List.take_left']
    rfl

end Field

abbrev Record : List Field → Type
  | [] => Unit
  | f :: fs => f.Carrier × Record fs

/-- `struct.calcsize`. -/
def size : List Field → Nat
  | [] => 0
  | f :: fs => f.width + size fs

def Fits : (fs : List Field) → Record fs → Prop
  | [], _ => True
  | f :: fs, v => f.Fits v.1 ∧ Fits fs v.2

instance decidableFits : (fs : List Field) → (v : Record fs) → Decidable (Fits fs v)
  | [], _ => instDecidableTrue
  | f :: fs, v =>
    have := decidableFits fs v.2
    inferInstanceAs (Decidable (f.Fits v.1 ∧ Fits fs v.2))

/-- `struct.pack`: the concatenated fields, or nothing when one is out of range. -/
def pack : (fs : List Field) → Record fs → Option Bytes
  | [], _ => some []
  | f :: fs, v =>
    match f.pack v.1, pack fs v.2 with
    | some b, some bs => some (b ++ bs)
    | _, _ => none

def unpack : (fs : List Field) → Bytes → Record fs
  | [], _ => ()
  | f :: fs, b => (f.unpack (b.take f.width), unpack fs (b.drop f.width))

/-- `struct.unpack_from`: refused when fewer than `size` bytes are left at `off`. -/
def unpackFrom (fs : List Field) (b : Bytes) (off : Nat) : Option (Record fs) :=
  if off + size fs ≤ b.length then some (unpack fs (b.drop off)) else none

variable {fs : List Field} {b : Bytes} {v : Record fs} {vs : List (Record fs)}

theorem pack_cons_eq_some {f : Field} {v : Record (f :: fs)} :
    pack (f :: fs) v = some b ↔ ∃ x y, f.pack v.1 = some x ∧ pack fs v.2 = some y ∧ b = x ++ y := by
  simp only [pack]
  cases hx : f.pack v.1 with
  | none => simp
  | some x =>
    cases hy : pack fs v.2 with
    | none => simp
    | some y => simp [eq_comm]

theorem length_of_pack (h : pack fs v = some b) : b.length = size fs := by
  induction fs generalizing b with
  | nil =>
    cases h
    rfl
  | cons f fs ih =>
    obtain ⟨x, y, hx, hy, rfl⟩ := pack_cons_eq_some.mp h
    simp only [List.length_append, size, Field.length_of_pack hx, ih hy]

theorem pack_of_fits (h : Fits fs v) : ∃ b, pack fs v = some b := by
  induction fs with
  | nil => exact ⟨[], rfl⟩
  | cons f fs ih =>
    obtain ⟨x, hx⟩ := Field.pack_of_fits h.1
    obtain ⟨y, hy⟩ := ih h.2
    exact ⟨x ++ y, pack_cons_eq_some.mpr ⟨x, y, hx, hy, rfl⟩⟩

def Exact : (fs : List Field) → Record fs → Prop
  | [], _ => True
  | .bytes w :: fs, v => List.length v.1 = w ∧ Exact fs v.2
  | .unsigned _ :: fs, v => Exact fs v.2
  | .signed _ :: fs, v => Exact fs v.2

theorem fits_of_pack (h : pack fs v = some b) (exact : Exact fs v) : Fits fs v := by
  induction fs generalizing b with
  | nil => trivial
  | cons f fs ih =>
    obtain ⟨x, y, hx, hy, -⟩ := pack_cons_eq_some.mp h
    cases f with
    | unsigned w =>
      refine ⟨?_, ih hy exact⟩
      simp only [Field.pack] at hx
      split at hx
      · assumption
      · cases hx
    | signed w =>
      refine ⟨?_, ih hy exact⟩
      simp only [Field.pack] at hx
      split at hx
      · assumption
      · cases hx
    | bytes w => exact ⟨exact.1, ih hy exact.2⟩

theorem unpack_pack_append (fits : Fits fs v) (h : pack fs v = some b) (rest : Bytes) :
    unpack fs (b ++ rest) = v := by
  induction fs generalizing b with
  | nil => rfl
  | cons f fs ih =>
    obtain ⟨x, y, hx, hy, rfl⟩ := pack_cons_eq_some.mp h
    have len := Field.length_of_pack hx
    have head : (x ++ y ++ rest).take f.width = x := by
      rw [List.append_assoc, ← len, List.take_left']
      rfl
    have tail : (x ++ y ++ rest).drop f.width = y ++ rest := by
      rw [List.append_assoc, ← len, List.drop_left']
      rfl
    simp only [unpack, head, tail, Field.unpack_pack fits.1 hx, ih fits.2 hy]

theorem unpackFrom_pack_append (fits : Fits fs v) (h : pack fs v = some b) (before rest : Bytes) :
    unpackFrom fs (before ++ (b ++ rest)) before.length = some v := by
  have len := length_of_pack h
  have long : before.length + size fs ≤ (before ++ (b ++ rest)).length := by
    simp only [List.length_append]
    omega
  simp only [unpackFrom, long, if_true, List.drop_left', unpack_pack_append fits h]

/-- A record read from a byte string depends on its first `size` bytes only. -/
theorem unpack_take (fs : List Field) (b : Bytes) : unpack fs (b.take (size fs)) = unpack fs b := by
  induction fs generalizing b with
  | nil => rfl
  | cons f fs ih =>
    have tail : (b.take (f.width + size fs)).drop f.width = (b.drop f.width).take (size fs) := by
      rw [List.drop_take, Nat.add_sub_cancel_left]
    simp only [unpack, size, List.take_take, Nat.min_eq_left (Nat.le_add_right _ _), tail, ih]

theorem fits_unpack (len : size fs ≤ b.length) (nonempty : ∀ f ∈ fs, 0 < f.width) :
    Fits fs (unpack fs b) := by
  induction fs generalizing b with
  | nil => trivial
  | cons f fs ih =>
    simp only [size] at len
    refine ⟨Field.fits_unpack ?_ (nonempty f (by simp)), ih ?_ ?_⟩
    · simp only [List.length_take]
      omega
    · simp only [List.length_drop]
      omega
    · intro g member
      exact nonempty g (by simp [member])

theorem pack_unpack (len : size fs ≤ b.length) (nonempty : ∀ f ∈ fs, 0 < f.width) :
    pack fs (unpack fs b) = some (b.take (size fs)) := by
  induction fs generalizing b with
  | nil => rfl
  | cons f fs ih =>
    simp only [size] at len ⊢
    have head : f.pack (f.unpack (b.take f.width)) = some (b.take f.width) := by
      apply Field.pack_unpack _ (nonempty f (by simp))
      simp only [List.length_take]
      omega
    have tail : pack fs (unpack fs (b.drop f.width)) = some ((b.drop f.width).take (size fs)) := by
      apply ih
      · simp only [List.length_drop]
        omega
      · intro g member
        exact nonempty g (by simp [member])
    simp only [unpack, pack, head, tail, Option.some.injEq]
    rw [List.take_add]

/-- `n` records, one after the other. -/
def unpackMany (fs : List Field) : Nat → Bytes → List (Record fs)
  | 0, _ => []
  | n + 1, b => unpack fs b :: unpackMany fs n (b.drop (size fs))

def packMany (fs : List Field) : List (Record fs) → Option Bytes
  | [] => some []
  | v :: vs =>
    match pack fs v, packMany fs vs with
    | some b, some bs => some (b ++ bs)
    | _, _ => none

@[simp] theorem length_unpackMany (fs : List Field) (n : Nat) (b : Bytes) :
    (unpackMany fs n b).length = n := by
  induction n generalizing b with
  | zero => rfl
  | succ n ih => simp only [unpackMany, List.length_cons, ih]

theorem packMany_cons_eq_some : packMany fs (v :: vs) = some b ↔
      ∃ x y, pack fs v = some x ∧ packMany fs vs = some y ∧ b = x ++ y := by
  simp only [packMany]
  cases hx : pack fs v with
  | none => simp
  | some x =>
    cases hy : packMany fs vs with
    | none => simp
    | some y => simp [eq_comm]

theorem length_of_packMany (h : packMany fs vs = some b) : b.length = vs.length * size fs := by
  induction vs generalizing b with
  | nil =>
    cases h
    simp
  | cons v vs ih =>
    obtain ⟨x, y, hx, hy, rfl⟩ := packMany_cons_eq_some.mp h
    rw [List.length_append, length_of_pack hx, ih hy, List.length_cons]
    ring

theorem packMany_of_fits (h : ∀ v ∈ vs, Fits fs v) : ∃ b, packMany fs vs = some b := by
  induction vs with
  | nil => exact ⟨[], rfl⟩
  | cons v vs ih =>
    obtain ⟨x, hx⟩ := pack_of_fits (h v (by simp))
    obtain ⟨y, hy⟩ := ih fun w member => h w (by simp [member])
    exact ⟨x ++ y, packMany_cons_eq_some.mpr ⟨x, y, hx, hy, rfl⟩⟩

theorem fits_of_packMany (h : packMany fs vs = some b) (exact : ∀ v ∈ vs, Exact fs v) :
    ∀ v ∈ vs, Fits fs v := by
  induction vs generalizing b with
  | nil => exact List.forall_mem_nil _
  | cons v vs ih =>
    obtain ⟨x, y, hx, hy, -⟩ := packMany_cons_eq_some.mp h
    rw [List.forall_mem_cons] at exact ⊢
    exact ⟨fits_of_pack hx exact.1, ih hy exact.2⟩

theorem unpackMany_packMany_append (fits : ∀ v ∈ vs, Fits fs v) (h : packMany fs vs = some b)
    (rest : Bytes) : unpackMany fs vs.length (b ++ rest) = vs := by
  induction vs generalizing b with
  | nil => rfl
  | cons v vs ih =>
    obtain ⟨x, y, hx, hy, rfl⟩ := packMany_cons_eq_some.mp h
    have tail : (x ++ y ++ rest).drop (size fs) = y ++ rest := by
      rw [List.append_assoc, ← length_of_pack hx, List.drop_left']
      rfl
    rw [List.length_cons, unpackMany, tail, ih (fun w member => fits w (by simp [member])) hy,
      List.append_assoc, unpack_pack_append (fits v (by simp)) hx]

variable {n : Nat}

theorem packMany_unpackMany (nonempty : ∀ f ∈ fs, 0 < f.width) (len : n * size fs ≤ b.length) :
    packMany fs (unpackMany fs n b) = some (b.take (n * size fs)) := by
  induction n generalizing b with
  | zero => simp [unpackMany, packMany]
  | succ n ih =>
    rw [Nat.add_mul, Nat.one_mul] at len ⊢
    have head := @pack_unpack fs b (by omega) nonempty
    have tail := ih (b := b.drop (size fs)) (by simp only [List.length_drop]; omega)
    simp only [unpackMany, packMany, head, tail, Option.some.injEq]
    rw [Nat.add_comm, List.take_add]

theorem fits_of_mem_unpackMany (nonempty : ∀ f ∈ fs, 0 < f.width) (len : n * size fs ≤ b.length)
    (member : v ∈ unpackMany fs n b) : Fits fs v := by
  induction n generalizing b with
  | zero => cases member
  | succ n ih =>
    rw [Nat.add_mul, Nat.one_mul] at len
    rcases List.mem_cons.mp member with rfl | later
    · exact fits_unpack (by omega) nonempty
    · refine ih ?_ later
      rw [List.length_drop]
      omega

end ProofRay.Lib.Struct
