/- Binary floating point in 64 bits: the number nearest to a fraction, ties to even, and the shortest
   decimal that is read as the same number. -/

import Mathlib.Algebra.Ring.Int.Defs
import Mathlib.Algebra.Ring.Nat
import Mathlib.Data.Nat.Log
import Mathlib.Data.List.Range

namespace ProofRay.Lib

/-- A fraction of two naturals. -/
structure Fraction where
  num : Nat
  den : Nat
  deriving DecidableEq, Repr

namespace Fraction

def scaled (base n : Nat) (power : Int) : Fraction :=
  if 0 ≤ power then ⟨n * base ^ power.toNat, 1⟩ else ⟨n, base ^ (-power).toNat⟩

def dividedBy (q : Fraction) (base : Nat) (power : Int) : Fraction :=
  if 0 ≤ power then ⟨q.num, q.den * base ^ power.toNat⟩
  else ⟨q.num * base ^ (-power).toNat, q.den⟩

def nearest (q : Fraction) : Nat :=
  let whole := q.num / q.den
  let rest := q.num % q.den
  if 2 * rest < q.den ∨ (2 * rest = q.den ∧ whole % 2 = 0) then whole else whole + 1

def same (q r : Fraction) : Bool := q.num * r.den = r.num * q.den

def distance (q r : Fraction) : Fraction :=
  ⟨max (q.num * r.den) (r.num * q.den) - min (q.num * r.den) (r.num * q.den), q.den * r.den⟩

def less (q r : Fraction) : Bool := q.num * r.den < r.num * q.den

end Fraction

/-- A finite number of 64 bits that is not negative: a significand below `2 ^ 53` times a power of
two. -/
structure Binary64 where
  significand : Nat
  exponent : Int
  deriving DecidableEq, Repr

namespace Binary64

def value (x : Binary64) : Fraction := .scaled 2 x.significand x.exponent

def nearest (q : Fraction) : Option Binary64 :=
  if q.num = 0 then some ⟨0, -1074⟩
  else
    -- the fraction is between the powers `magnitude - 1` and `magnitude + 1` of two
    let magnitude : Int := q.num.log2 - q.den.log2
    let low := max (magnitude - 53) (-1074)
    let exponent := if 2 ^ 53 ≤ (q.dividedBy 2 low).num / (q.dividedBy 2 low).den then low + 1 else low
    let rounded := (q.dividedBy 2 exponent).nearest
    let x : Binary64 := if rounded = 2 ^ 53 then ⟨2 ^ 52, exponent + 1⟩ else ⟨rounded, exponent⟩
    if x.exponent ≤ 971 then some x else none

def decimalsNear (x : Binary64) (power : Int) : List Nat :=
  let scaled := x.value.dividedBy 10 power
  let lower := scaled.num / scaled.den
  let near (n : Nat) := (Fraction.scaled 10 n power).distance x.value
  if (near (lower + 1)).less (near lower) then [lower + 1, lower] else [lower, lower + 1]

/-- The shortest decimal that is read as the number, the nearest one of its length: its digits and
the power of ten they are multiplied by. -/
def shortest (x : Binary64) : Option (Nat × Int) :=
  if x.significand = 0 then some (0, 0)
  else
    let digits : Int :=
      (Nat.toDigits 10 x.value.num).length - (Nat.toDigits 10 x.value.den).length + 1
    (List.range 20).findSome? fun finer =>
      let power := digits - finer
      ((x.decimalsNear power).find? fun n => n ≠ 0 && nearest (.scaled 10 n power) = some x).map
        fun n => (n, power)

theorem eq_zero_of_shortest {x : Binary64} {n : Nat} {power : Int}
    (found : x.shortest = some (n, power)) (zero : n = 0) : power = 0 := by
  unfold shortest at found
  split_ifs at found
  · cases found
    rfl
  · obtain ⟨finer, -, here⟩ := List.exists_of_findSome?_eq_some found
    obtain ⟨m, searched, same⟩ := Option.map_eq_some_iff.mp here
    cases same
    have nonzero := List.find?_some searched
    simp [zero] at nonzero

end Binary64

end ProofRay.Lib
