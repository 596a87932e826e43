/- Base64: three bytes as four letters, with padding behind the last of them. -/

import Mathlib.Data.List.Basic

namespace ProofRay.Lib.Base64

def letter (n : Nat) : Char :=
  if n < 26 then Char.ofNat (65 + n)
  else if n < 52 then Char.ofNat (71 + n)
  else if n < 62 then Char.ofNat (n - 4)
  else if n = 62 then '+'
  else '/'

def letterValue (c : Char) : Option Nat :=
  if 65 ≤ c.toNat ∧ c.toNat ≤ 90 then some (c.toNat - 65)
  else if 97 ≤ c.toNat ∧ c.toNat ≤ 122 then some (c.toNat - 71)
  else if 48 ≤ c.toNat ∧ c.toNat ≤ 57 then some (c.toNat + 4)
  else if c = '+' then some 62
  else if c = '/' then some 63
  else none

def encode : List UInt8 → List Char
  | [] => []
  | [a] => [letter (a.toNat / 4), letter (a.toNat % 4 * 16), '=', '=']
  | [a, b] => [letter (a.toNat / 4), letter (a.toNat % 4 * 16 + b.toNat / 16),
      letter (b.toNat % 16 * 4), '=']
  | a :: b :: c :: rest => letter (a.toNat / 4) :: letter (a.toNat % 4 * 16 + b.toNat / 16) ::
      letter (b.toNat % 16 * 4 + c.toNat / 64) :: letter (c.toNat % 64) :: encode rest

def decode : List Char → Option (List UInt8)
  | [] => some []
  | [w, x, '=', '='] => do
    let w ← letterValue w
    let x ← letterValue x
    if x % 16 = 0 then some [UInt8.ofNat (w * 4 + x / 16)] else none
  | [w, x, y, '='] => do
    let w ← letterValue w
    let x ← letterValue x
    let y ← letterValue y
    if y % 4 = 0 then
      some [UInt8.ofNat (w * 4 + x / 16), UInt8.ofNat (x % 16 * 16 + y / 4)]
    else none
  | w :: x :: y :: z :: rest => do
    let w ← letterValue w
    let x ← letterValue x
    let y ← letterValue y
    let z ← letterValue z
    let bytes ← decode rest
    return UInt8.ofNat (w * 4 + x / 16) :: UInt8.ofNat (x % 16 * 16 + y / 4) ::
      UInt8.ofNat (y % 4 * 64 + z) :: bytes
  | _ => none

theorem letterValue_letter : ∀ {n : Nat}, n < 64 → letterValue (letter n) = some n := by
  decide

theorem letter_ne_pad : ∀ {n : Nat}, n < 64 → letter n ≠ '=' := by
  decide

private theorem byte_of_parts (a : UInt8) {m : Nat} (same : m = a.toNat) : UInt8.ofNat m = a := by
  rw [same, UInt8.ofNat_toNat]

theorem decode_encode (bytes : List UInt8) : decode (encode bytes) = some bytes := by
  induction bytes using encode.induct with
  | case1 => rfl
  | case2 a =>
    have below := a.toNat_lt
    rw [encode, decode, letterValue_letter (by omega), letterValue_letter (by omega)]
    simp only [Option.bind_eq_bind, Option.bind_some]
    rw [if_pos (by omega), byte_of_parts a (by omega)]
  | case3 a b =>
    have below := a.toNat_lt
    have below' := b.toNat_lt
    rw [encode, decode, letterValue_letter (by omega), letterValue_letter (by omega),
      letterValue_letter (by omega)]
    · simp only [Option.bind_eq_bind, Option.bind_some]
      rw [if_pos (by omega), byte_of_parts a (by omega), byte_of_parts b (by omega)]
    · exact fun same => letter_ne_pad (by omega) same
  | case4 a b c rest ih =>
    have below := a.toNat_lt
    have below' := b.toNat_lt
    have below'' := c.toNat_lt
    have last : letter (c.toNat % 64) ≠ '=' := letter_ne_pad (by omega)
    rw [encode, decode, letterValue_letter (by omega), letterValue_letter (by omega),
      letterValue_letter (by omega), letterValue_letter (by omega), ih]
    · simp only [Option.bind_eq_bind, Option.bind_some]
      rw [byte_of_parts a (by omega), byte_of_parts b (by omega), byte_of_parts c (by omega)]
      rfl
    · exact fun _ same _ => absurd same last
    · exact fun same _ => absurd same last

theorem length_encode (bytes : List UInt8) :
    (encode bytes).length = 4 * ((bytes.length + 2) / 3) := by
  induction bytes using encode.induct with
  | case1 => rfl
  | case2 a => simp [encode]
  | case3 a b => simp [encode]
  | case4 a b c rest ih =>
    rw [encode, List.length_cons, List.length_cons, List.length_cons, List.length_cons, ih,
      List.length_cons, List.length_cons, List.length_cons]
    omega

end ProofRay.Lib.Base64
