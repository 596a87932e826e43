/- The rational value of a number of 64 bits, and how far a fraction up to one is from the number
   nearest to it. -/

import Mathlib.Algebra.Order.Field.Power
import Mathlib.Data.Rat.Cast.Order
import Mathlib.Tactic.FieldSimp
import Mathlib.Tactic.Linarith
import Mathlib.Tactic.Positivity
import Mathlib.Tactic.Ring
import ProofRay.Lib.Binary64

namespace ProofRay.Lib

namespace Fraction

def toRat (q : Fraction) : ℚ := (q.num : ℚ) / q.den

theorem toRat_scaled (base n : Nat) (positive : 0 < base) (power : Int) :
    (scaled base n power).toRat = n * (base : ℚ) ^ power := by
  have nonzero : (base : ℚ) ≠ 0 := by positivity
  unfold scaled toRat
  split_ifs with up
  · obtain ⟨k, rfl⟩ := Int.eq_ofNat_of_zero_le up
    simp
  · obtain ⟨k, same⟩ := Int.eq_ofNat_of_zero_le (show 0 ≤ -power by omega)
    obtain rfl : power = -(k : Int) := by omega
    simp only [neg_neg, Int.toNat_natCast, Nat.cast_pow, zpow_neg, zpow_natCast]
    exact div_eq_mul_inv _ _

theorem toRat_dividedBy (q : Fraction) (base : Nat) (positive : 0 < base) (power : Int) :
    (q.dividedBy base power).toRat = q.toRat / (base : ℚ) ^ power := by
  have nonzero : (base : ℚ) ≠ 0 := by positivity
  unfold dividedBy toRat
  split_ifs with up
  · obtain ⟨k, rfl⟩ := Int.eq_ofNat_of_zero_le up
    simp only [Int.toNat_natCast, Nat.cast_mul, Nat.cast_pow, zpow_natCast]
    exact (div_div _ _ _).symm
  · obtain ⟨k, same⟩ := Int.eq_ofNat_of_zero_le (show 0 ≤ -power by omega)
    obtain rfl : power = -(k : Int) := by omega
    simp only [neg_neg, Int.toNat_natCast, Nat.cast_mul, Nat.cast_pow, zpow_neg, zpow_natCast,
      div_inv_eq_mul]
    ring

theorem den_dividedBy (q : Fraction) (base : Nat) (positive : 0 < base) (power : Int)
    (proper : 0 < q.den) : 0 < (q.dividedBy base power).den := by
  unfold dividedBy
  split_ifs
  · exact Nat.mul_pos proper (Nat.pow_pos positive)
  · exact proper

theorem den_scaled (base n : Nat) (positive : 0 < base) (power : Int) :
    0 < (scaled base n power).den := by
  unfold scaled
  split_ifs
  · exact Nat.one_pos
  · exact Nat.pow_pos positive

theorem less_iff {q r : Fraction} (proper : 0 < q.den) (proper' : 0 < r.den) :
    q.less r = true ↔ q.toRat < r.toRat := by
  unfold less toRat
  rw [decide_eq_true_eq, div_lt_div_iff₀ (by exact_mod_cast proper) (by exact_mod_cast proper')]
  exact_mod_cast Iff.rfl

theorem nearest_error (q : Fraction) (proper : 0 < q.den) :
    |(q.nearest : ℚ) - q.toRat| ≤ 1 / 2 := by
  have den_pos : (0 : ℚ) < q.den := by exact_mod_cast proper
  have split_num : (q.num : ℚ) = q.den * (q.num / q.den : Nat) + (q.num % q.den : Nat) := by
    exact_mod_cast (Nat.div_add_mod q.num q.den).symm
  have whole_rest : q.toRat = (q.num / q.den : Nat) + ((q.num % q.den : Nat) : ℚ) / q.den := by
    unfold toRat
    rw [split_num]
    field_simp
  have rest_lt : ((q.num % q.den : Nat) : ℚ) < q.den := by
    exact_mod_cast Nat.mod_lt _ proper
  have rest_nonneg : (0 : ℚ) ≤ ((q.num % q.den : Nat) : ℚ) / q.den := by positivity
  have rest_le_one : ((q.num % q.den : Nat) : ℚ) / q.den ≤ 1 :=
    (div_le_one den_pos).mpr rest_lt.le
  unfold nearest
  simp only []
  split_ifs with down
  · have half : ((q.num % q.den : Nat) : ℚ) / q.den ≤ 1 / 2 := by
      rw [div_le_div_iff₀ den_pos (by norm_num)]
      have natural : 2 * (q.num % q.den) ≤ q.den := by omega
      have cast : (2 : ℚ) * ((q.num % q.den : Nat) : ℚ) ≤ q.den := by exact_mod_cast natural
      linarith
    rw [whole_rest, abs_le]
    constructor
    · linarith
    · linarith
  · have half : (1 : ℚ) / 2 ≤ ((q.num % q.den : Nat) : ℚ) / q.den := by
      rw [div_le_div_iff₀ (by norm_num) den_pos]
      have natural : q.den ≤ 2 * (q.num % q.den) := by omega
      have cast : (q.den : ℚ) ≤ 2 * ((q.num % q.den : Nat) : ℚ) := by exact_mod_cast natural
      linarith
    rw [whole_rest, abs_le]
    push_cast
    constructor
    · linarith
    · linarith

end Fraction

namespace Binary64

def toRat (x : Binary64) : ℚ := x.value.toRat

theorem toRat_eq (x : Binary64) : x.toRat = x.significand * (2 : ℚ) ^ x.exponent :=
  Fraction.toRat_scaled 2 x.significand (by decide) x.exponent

theorem toRat_nonneg (x : Binary64) : 0 ≤ x.toRat := by
  rw [toRat_eq]
  positivity

def less (x y : Binary64) : Bool := x.value.less y.value

theorem less_iff {x y : Binary64} : x.less y = true ↔ x.toRat < y.toRat :=
  Fraction.less_iff (Fraction.den_scaled 2 _ (by decide) _) (Fraction.den_scaled 2 _ (by decide) _)

theorem rounded_error (q : Fraction) (proper : 0 < q.den) (power : Int) :
    |((q.dividedBy 2 power).nearest : ℚ) * (2 : ℚ) ^ power - q.toRat| ≤ (2 : ℚ) ^ power / 2 := by
  have unit_pos : (0 : ℚ) < (2 : ℚ) ^ power := by positivity
  have near := (q.dividedBy 2 power).nearest_error (q.den_dividedBy 2 (by decide) power proper)
  rw [q.toRat_dividedBy 2 (by decide) power] at near
  push_cast at near
  have scale_back : ((q.dividedBy 2 power).nearest : ℚ) * (2 : ℚ) ^ power - q.toRat =
      (((q.dividedBy 2 power).nearest : ℚ) - q.toRat / (2 : ℚ) ^ power) * (2 : ℚ) ^ power := by
    field_simp
  rw [scale_back, abs_mul, abs_of_pos unit_pos]
  calc _ ≤ 1 / 2 * (2 : ℚ) ^ power := mul_le_mul_of_nonneg_right near unit_pos.le
    _ = (2 : ℚ) ^ power / 2 := by ring

/-- What a significand of up to `2 ^ 53` is stored as has the same value. -/
theorem toRat_carried (rounded : Nat) (power : Int) :
    (if rounded = 2 ^ 53 then (⟨2 ^ 52, power + 1⟩ : Binary64) else ⟨rounded, power⟩).toRat =
      rounded * (2 : ℚ) ^ power := by
  split_ifs with full
  · rw [toRat_eq, full, zpow_add_one₀ (by norm_num)]
    push_cast
    ring
  · exact toRat_eq _

/-- A fraction up to one has a nearest number, at most `2 ^ -54` away. -/
theorem nearest_error {q : Fraction} (proper : 0 < q.den) (small : q.num ≤ q.den) :
    ∃ x, nearest q = some x ∧ |x.toRat - q.toRat| ≤ 1 / 2 ^ 54 := by
  unfold nearest
  by_cases zero : q.num = 0
  · refine ⟨⟨0, -1074⟩, if_pos zero, ?_⟩
    simp [toRat_eq, Fraction.toRat, zero]
  rw [if_neg zero]
  have logs : q.num.log2 ≤ q.den.log2 := by
    rw [Nat.log2_eq_log_two, Nat.log2_eq_log_two]
    exact Nat.log_mono_right small
  simp only []
  generalize lowest : max ((q.num.log2 : Int) - q.den.log2 - 53) (-1074) = low
  have low_le : low ≤ -53 := by omega
  generalize chosen : (if 2 ^ 53 ≤ (q.dividedBy 2 low).num / (q.dividedBy 2 low).den then low + 1
    else low) = power
  have bounded : power ≤ -52 := by
    split_ifs at chosen <;> omega
  refine ⟨_, if_pos ?_, ?_⟩
  · split_ifs
    · show power + 1 ≤ 971
      omega
    · show power ≤ 971
      omega
  rw [toRat_carried]
  by_cases fine : power ≤ -53
  · calc _ ≤ (2 : ℚ) ^ power / 2 := rounded_error q proper power
      _ ≤ (2 : ℚ) ^ (-53 : Int) / 2 :=
        div_le_div_of_nonneg_right (zpow_le_zpow_right₀ (by norm_num) fine) (by norm_num)
      _ = 1 / 2 ^ 54 := by norm_num
  · -- only one is rounded to a multiple of `2 ^ -52`, and is one
    obtain rfl : power = -52 := by omega
    obtain rfl : low = -53 := by split_ifs at chosen <;> omega
    have full : 2 ^ 53 ≤ (q.dividedBy 2 (-53)).num / (q.dividedBy 2 (-53)).den := by
      by_contra less
      rw [if_neg less] at chosen
      omega
    have one : q.num = q.den := by
      have product : 2 ^ 53 * q.den ≤ q.num * 2 ^ 53 := (Nat.le_div_iff_mul_le proper).mp full
      omega
    have exact : (q.dividedBy 2 (-52)).nearest = 2 ^ 52 := by
      show Fraction.nearest ⟨q.num * 2 ^ 52, q.den⟩ = 2 ^ 52
      unfold Fraction.nearest
      simp [one, proper]
    have unit : q.toRat = 1 := by
      unfold Fraction.toRat
      rw [one, div_self (by exact_mod_cast proper.ne')]
    rw [exact, unit]
    norm_num

end Binary64

end ProofRay.Lib
