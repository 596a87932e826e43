/- The text of a decimal number in scientific notation where its exponent asks for it, and that the
   number is read back from it, digit for digit. -/

import ProofRay.Lib.Numeral

namespace ProofRay.Lib.Decimal

def pointed (fraction : List Char) : List Char := if fraction = [] then [] else '.' :: fraction

/-- `"%+d"`. -/
def signedText (n : Int) : List Char :=
  (if n < 0 then '-' else '+') :: Nat.toDigits 10 n.natAbs

/-- The digits before and behind the point, and the exponent where one is written.  The point stands
`exponent + length` digits from the left when that takes no zeros behind and few before, and behind
the first digit otherwise. -/
def Finite.notation (d : Finite) : List Char × List Char × Option Int :=
  let digits := Nat.toDigits 10 d.coefficient
  let left : Int := d.exponent + digits.length
  if d.exponent ≤ 0 ∧ -6 < left then
    if left ≤ 0 then (['0'], List.replicate (-left).toNat '0' ++ digits, none)
    else (digits.take left.toNat, digits.drop left.toNat, none)
  else (digits.take 1, digits.drop 1, if left = 1 then none else some (left - 1))

def exponentText : Option Int → List Char
  | none => []
  | some n => 'E' :: signedText n

/-- `str(Decimal)` of a finite number, without its sign. -/
def Finite.body (d : Finite) : List Char :=
  let (whole, fraction, power) := d.notation
  whole ++ pointed fraction ++ exponentText power

/-- `str(Decimal)`. -/
def Number.text : Number → List Char
  | .finite d => (if d.negative then ['-'] else []) ++ d.body
  | .infinity negative => (if negative then ['-'] else []) ++ "Infinity".toList
  | .nan negative signaling payload =>
    (if negative then ['-'] else []) ++ (if signaling then ['s'] else []) ++ "NaN".toList ++ payload

/-- What may follow the digits of a numeral: nothing, or a letter that starts an exponent. -/
def Ends (tail : List Char) : Prop := tail = [] ∨ ∃ rest, tail = 'E' :: rest

theorem scanFinite_numeral (negative : Bool) {whole fraction tail : List Char} {exponent : Int}
    (left : Digital whole) (right : Digital fraction) (some_digit : whole ≠ [])
    (ends : Ends tail) (power : scanExponent tail = some exponent) :
    scanFinite negative (whole ++ pointed fraction ++ tail) =
      some ⟨negative, ofDigits (whole ++ fraction), exponent - fraction.length⟩ := by
  have body : ∀ c ∈ whole ++ pointed fraction, (c ≠ 'e' && c ≠ 'E') = true := by
    intro c member
    rcases List.mem_append.mp member with inside | inside
    · simp [digit_ne (x := 'e') (left c inside) rfl, digit_ne (x := 'E') (left c inside) rfl]
    · unfold pointed at inside
      split at inside
      · cases inside
      · rcases List.mem_cons.mp inside with rfl | inside
        · rfl
        · simp [digit_ne (x := 'e') (right c inside) rfl, digit_ne (x := 'E') (right c inside) rfl]
  have point : ∀ c ∈ whole, (decide (c ≠ '.')) = true := fun c member => by
    simp [digit_ne (x := '.') (left c member) rfl]
  have stopped : tail.takeWhile (fun c => c ≠ 'e' && c ≠ 'E') = [] ∧
      tail.dropWhile (fun c => c ≠ 'e' && c ≠ 'E') = tail := by
    rcases ends with rfl | ⟨rest, rfl⟩
    · exact ⟨rfl, rfl⟩
    · exact ⟨rfl, rfl⟩
  have nonempty : whole ++ fraction ≠ [] := List.append_ne_nil_of_left_ne_nil some_digit _
  have behind : (pointed fraction).takeWhile (fun c => decide (c ≠ '.')) = [] ∧
      ((pointed fraction).dropWhile fun c => decide (c ≠ '.')).drop 1 = fraction := by
    unfold pointed
    split
    · next nothing => exact ⟨rfl, nothing.symm⟩
    · exact ⟨rfl, rfl⟩
  unfold scanFinite
  rw [List.takeWhile_append_of_pos body, List.dropWhile_append_of_pos body, stopped.1, stopped.2,
    List.append_nil]
  simp only
  rw [List.takeWhile_append_of_pos point, List.dropWhile_append_of_pos point, behind.1, behind.2,
    List.append_nil, if_pos ⟨nonempty, List.all_eq_true.mpr (left.append right)⟩, power]
  rfl

theorem scanExponent_signed (n : Int) : scanExponent ('E' :: signedText n) = some n := by
  have digits : Nat.toDigits 10 n.natAbs ≠ [] := Nat.toDigits_ne_nil
  have digital : (Nat.toDigits 10 n.natAbs).all Char.isDigit = true :=
    List.all_eq_true.mpr (digital_toDigits _)
  have value : ofDigits (Nat.toDigits 10 n.natAbs) = n.natAbs := Nat.ofDigitChars_ten_toDigits
  unfold signedText
  by_cases negative : n < 0
  · rw [if_pos negative]
    simp only [scanExponent, scanSign]
    rw [if_pos ⟨digits, digital⟩, value, if_pos trivial]
    congr 1
    omega
  · rw [if_neg negative]
    simp only [scanExponent, scanSign]
    rw [if_pos ⟨digits, digital⟩, value, if_neg Bool.false_ne_true]
    congr 1
    omega

private theorem length_toDigits_pos (n : Nat) : 0 < (Nat.toDigits 10 n).length :=
  List.length_pos_of_ne_nil Nat.toDigits_ne_nil

private theorem notation_spec (d : Finite) :
    ∃ whole fraction power, d.notation = (whole, fraction, power) ∧ whole ≠ [] ∧ Digital whole ∧
      Digital fraction ∧ ofDigits (whole ++ fraction) = d.coefficient ∧
      power.getD 0 - (fraction.length : Int) = d.exponent := by
  have positive := length_toDigits_pos d.coefficient
  have digital := digital_toDigits d.coefficient
  have value : ofDigits (Nat.toDigits 10 d.coefficient) = d.coefficient :=
    Nat.ofDigitChars_ten_toDigits
  unfold Finite.notation
  generalize Nat.toDigits 10 d.coefficient = digits at positive digital value ⊢
  have front (n : Nat) : Digital (digits.take n) := fun c member =>
    digital c (List.mem_of_mem_take member)
  have back (n : Nat) : Digital (digits.drop n) := fun c member =>
    digital c (List.mem_of_mem_drop member)
  have taken (n : Nat) (some_digit : 0 < n) : digits.take n ≠ [] := by
    rw [← List.length_pos_iff, List.length_take]
    omega
  have rejoined (n : Nat) : ofDigits (digits.take n ++ digits.drop n) = d.coefficient := by
    rw [List.take_append_drop, value]
  by_cases plain : d.exponent ≤ 0 ∧ -6 < d.exponent + (digits.length : Int)
  · simp only [if_pos plain]
    by_cases small : d.exponent + (digits.length : Int) ≤ 0
    · simp only [if_pos small]
      refine ⟨_, _, _, rfl, List.cons_ne_nil _ _, digital_zeros 1,
        (digital_zeros _).append digital, ?_, ?_⟩
      · rw [← List.append_assoc, ofDigits, Nat.ofDigitChars_append, Nat.ofDigitChars_append,
          Nat.ofDigitChars_replicate_zero]
        exact value
      · simp only [Option.getD_none, List.length_append, List.length_replicate]
        omega
    · simp only [if_neg small]
      refine ⟨_, _, _, rfl, taken _ (by omega), front _, back _, rejoined _, ?_⟩
      simp only [Option.getD_none, List.length_drop]
      omega
  · simp only [if_neg plain]
    refine ⟨_, _, _, rfl, taken 1 (by omega), front _, back _, rejoined _, ?_⟩
    rw [List.length_drop]
    split
    · simp only [Option.getD_none]
      omega
    · simp only [Option.getD_some]
      omega

theorem scan_text (d : Finite) : scan (Number.finite d).text = some (.finite d) := by
  obtain ⟨whole, fraction, power, shape, some_digit, left, right, value, place⟩ := notation_spec d
  obtain ⟨c, digits, rfl⟩ := List.exists_cons_of_ne_nil some_digit
  have written : (Number.finite d).text = (if d.negative then ['-'] else []) ++
      c :: (digits ++ pointed fraction ++ exponentText power) := by
    simp only [Number.text, Finite.body, shape, List.cons_append]
  have tail : Ends (exponentText power) ∧
      scanExponent (exponentText power) = some (power.getD 0) := by
    cases power with
    | none => exact ⟨.inl rfl, rfl⟩
    | some n => exact ⟨.inr ⟨_, rfl⟩, scanExponent_signed n⟩
  have number := scanFinite_numeral d.negative left right some_digit tail.1 tail.2
  rw [List.cons_append, List.cons_append] at number
  rw [written, scan_body d.negative (left c List.mem_cons_self), number, value, place]
  rfl

theorem head_text (n : Number) {c : Char} (first : n.text.head? = some c) :
    c.isDigit = true ∨ c ∈ ['-', 'I', 's', 'N'] := by
  cases n with
  | finite d =>
    obtain ⟨whole, fraction, power, shape, some_digit, left, -⟩ := notation_spec d
    obtain ⟨d', digits, rfl⟩ := List.exists_cons_of_ne_nil some_digit
    simp only [Number.text, Finite.body, shape] at first
    cases sign : d.negative with
    | true =>
      rw [sign] at first
      cases first
      exact .inr (by simp)
    | false =>
      rw [sign] at first
      cases first
      exact .inl (left _ List.mem_cons_self)
  | infinity negative =>
    cases negative with
    | true =>
      cases first
      exact .inr (by simp)
    | false =>
      have start : ("Infinity".toList).head? = some 'I' := by decide
      simp only [Number.text, Bool.false_eq_true, if_false, List.nil_append, start,
        Option.some.injEq] at first
      exact .inr (by simp [← first])
  | nan negative signaling payload =>
    cases negative with
    | true =>
      cases first
      exact .inr (by simp)
    | false =>
      cases signaling with
      | true =>
        cases first
        exact .inr (by simp)
      | false =>
        have start : "NaN".toList = ['N', 'a', 'N'] := by decide
        simp only [Number.text, Bool.false_eq_true, if_false, List.nil_append, start,
          List.cons_append, List.head?_cons, Option.some.injEq] at first
        exact .inr (by simp [← first])

end ProofRay.Lib.Decimal
