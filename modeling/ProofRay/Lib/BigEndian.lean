/- Numbers as their big-endian bytes. -/

import ProofRay.Lib.Struct

namespace ProofRay.Lib.Struct

/-- The `w` big-endian bytes of `n`. -/
def beBytes (w n : Nat) : Bytes := (leBytes w n).reverse

def beNat (b : Bytes) : Nat := leNat b.reverse

@[simp] theorem length_beBytes (w n : Nat) : (beBytes w n).length = w := by
  rw [beBytes, List.length_reverse, length_leBytes]

theorem beNat_beBytes {w n : Nat} (small : n < 256 ^ w) : beNat (beBytes w n) = n := by
  rw [beNat, beBytes, List.reverse_reverse, leNat_leBytes w n small]

variable {b : Bytes} {w : Nat}

theorem beBytes_beNat (len : b.length = w) : beBytes w (beNat b) = b := by
  subst len
  have back := leBytes_leNat b.reverse
  rw [List.length_reverse] at back
  rw [beBytes, beNat, back, List.reverse_reverse]

theorem beNat_lt (len : b.length = w) : beNat b < 256 ^ w := by
  have bound := leNat_lt b.reverse
  rwa [List.length_reverse, len] at bound

end ProofRay.Lib.Struct
