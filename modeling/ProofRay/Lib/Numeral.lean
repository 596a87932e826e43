/- Texts of decimals: how a text is read as a number, and how a number is written in fixed notation
   and without the zeros at its end. -/

import ProofRay.Lib.Decimal

namespace ProofRay.Lib.Decimal

def scanSign : List Char → Bool × List Char
  | '-' :: text => (true, text)
  | '+' :: text => (false, text)
  | text => (false, text)

def ofDigits (digits : List Char) : Nat := Nat.ofDigitChars 10 digits 0

def scanExponent : List Char → Option Int
  | [] => some 0
  | _ :: text =>
    let (negative, digits) := scanSign text
    if digits ≠ [] ∧ digits.all Char.isDigit = true then
      some (if negative then -(ofDigits digits : Int) else ofDigits digits)
    else none

def scanFinite (negative : Bool) (text : List Char) : Option Finite :=
  let mantissa := text.takeWhile fun c => c ≠ 'e' && c ≠ 'E'
  let whole := mantissa.takeWhile fun c => c ≠ '.'
  let fraction := (mantissa.dropWhile fun c => c ≠ '.').drop 1
  if whole ++ fraction ≠ [] ∧ (whole ++ fraction).all Char.isDigit = true then
    (scanExponent (text.dropWhile fun c => c ≠ 'e' && c ≠ 'E')).map fun exponent =>
      ⟨negative, ofDigits (whole ++ fraction), exponent - fraction.length⟩
  else none

/-- The diagnostic digits behind `nan`. -/
def scanPayload (digits : List Char) : Option (List Char) :=
  if digits.all Char.isDigit = true then some (digits.dropWhile fun c => c = '0') else none

def scan (text : List Char) : Option Number :=
  let (negative, unsigned) := scanSign text
  let lower := unsigned.map Char.toLower
  if lower = ['i', 'n', 'f'] ∨ lower = ['i', 'n', 'f', 'i', 'n', 'i', 't', 'y'] then
    some (.infinity negative)
  else if lower.take 3 = ['n', 'a', 'n'] then
    (scanPayload (lower.drop 3)).map (.nan negative false)
  else if lower.take 4 = ['s', 'n', 'a', 'n'] then
    (scanPayload (lower.drop 4)).map (.nan negative true)
  else (scanFinite negative unsigned).map .finite

def Context.holds (ctx : Context) (d : Finite) : Bool :=
  ctx.etiny ≤ d.exponent &&
    if d.coefficient = 0 then d.exponent ≤ ctx.emax
    else Nat.log 10 d.coefficient < ctx.prec && Nat.log 10 d.coefficient + d.exponent ≤ ctx.emax

def padded (width n : Nat) : List Char :=
  List.replicate (width - (Nat.toDigits 10 n).length) '0' ++ Nat.toDigits 10 n

def Finite.fixed (d : Finite) : List Char :=
  if 0 ≤ d.exponent then
    if d.coefficient = 0 then ['0']
    else Nat.toDigits 10 d.coefficient ++ List.replicate d.exponent.toNat '0'
  else
    let places := (-d.exponent).toNat
    let digits := padded (places + 1) d.coefficient
    digits.take (digits.length - places) ++ '.' :: digits.drop (digits.length - places)

def Number.fixed : Number → List Char
  | .finite d => (if d.negative then ['-'] else []) ++ d.fixed
  | .infinity negative => (if negative then ['-'] else []) ++ "Infinity".toList
  | .nan negative signaling payload =>
    (if negative then ['-'] else []) ++ (if signaling then ['s'] else []) ++ "NaN".toList ++ payload

def rstrip (ch : Char) (text : List Char) : List Char := text.rdropWhile fun c => c = ch

def Number.plain (x : Number) : List Char :=
  if '.' ∈ x.fixed then rstrip '.' (rstrip '0' x.fixed) else x.fixed

def Digital (text : List Char) : Prop := ∀ c ∈ text, c.isDigit = true

theorem Digital.append {a b : List Char} (left : Digital a) (right : Digital b) :
    Digital (a ++ b) := fun c member =>
  (List.mem_append.mp member).elim (left c) (right c)

theorem digital_toDigits (n : Nat) : Digital (Nat.toDigits 10 n) := fun _ member =>
  Nat.isDigit_of_mem_toDigits (by decide) (by decide) member

theorem digital_zeros (n : Nat) : Digital (List.replicate n '0') := fun c member => by
  rw [List.eq_of_mem_replicate member]
  rfl

theorem digital_padded (width n : Nat) : Digital (padded width n) :=
  (digital_zeros _).append (digital_toDigits n)

theorem ofDigits_append_zeros (digits : List Char) (n : Nat) :
    ofDigits (digits ++ List.replicate n '0') = ofDigits digits * 10 ^ n := by
  rw [ofDigits, Nat.ofDigitChars_append, Nat.ofDigitChars_replicate_zero, Nat.mul_comm]
  rfl

theorem ofDigits_padded (width n : Nat) : ofDigits (padded width n) = n := by
  rw [ofDigits, padded, Nat.ofDigitChars_append, Nat.ofDigitChars_replicate_zero, Nat.mul_zero,
    Nat.ofDigitChars_ten_toDigits]

theorem le_length_padded (width n : Nat) : width ≤ (padded width n).length := by
  rw [padded, List.length_append, List.length_replicate]
  omega

theorem digit_ne {c x : Char} (digit : c.isDigit = true) (other : x.isDigit = false) : c ≠ x := by
  rintro rfl
  rw [digit] at other
  cases other

variable {d : Finite} {c : Char} {digits : List Char}

theorem digit_toLower (digit : c.isDigit = true) : c.toLower = c := by
  have range : 48 ≤ c.val ∧ c.val ≤ 57 := by simpa [Char.isDigit] using digit
  have small : ¬ (65 ≤ c.val ∧ c.val ≤ 90) := fun upper =>
    absurd (UInt32.le_trans upper.1 range.2) (by decide)
  exact dif_neg small

theorem scanSign_body (negative : Bool) (digit : c.isDigit = true) (rest : List Char) :
    scanSign ((if negative then ['-'] else []) ++ c :: rest) = (negative, c :: rest) := by
  cases negative with
  | true => rfl
  | false =>
    have minus := digit_ne (x := '-') digit rfl
    have plus := digit_ne (x := '+') digit rfl
    simp only [Bool.false_eq_true, if_false, List.nil_append]
    unfold scanSign
    split
    · rename_i same
      exact absurd (List.cons.inj same).1 minus
    · rename_i same
      exact absurd (List.cons.inj same).1 plus
    · rfl

theorem scan_body (negative : Bool) (digit : c.isDigit = true) (rest : List Char) :
    scan ((if negative then ['-'] else []) ++ c :: rest) =
      (scanFinite negative (c :: rest)).map .finite := by
  have first (ch : Char) (other : ch.isDigit = false) (tail : List Char) (n : Nat) :
      ((c :: rest).map Char.toLower).take (n + 1) ≠ ch :: tail := by
    rw [List.map_cons, List.take_succ_cons, digit_toLower digit]
    exact fun same => digit_ne digit other (List.cons.inj same).1
  have whole (ch : Char) (other : ch.isDigit = false) (tail : List Char) :
      (c :: rest).map Char.toLower ≠ ch :: tail := by
    rw [List.map_cons, digit_toLower digit]
    exact fun same => digit_ne digit other (List.cons.inj same).1
  unfold scan
  rw [scanSign_body negative digit rest]
  simp only
  rw [if_neg (not_or.mpr ⟨whole 'i' rfl _, whole 'i' rfl _⟩), if_neg (first 'n' rfl _ 2),
    if_neg (first 's' rfl _ 3)]

theorem scanFinite_whole (negative : Bool) (digital : Digital digits) (some_digit : digits ≠ []) :
    scanFinite negative digits = some ⟨negative, ofDigits digits, 0⟩ := by
  have mantissa : ∀ c ∈ digits, (c ≠ 'e' && c ≠ 'E') = true := fun c member => by
    simp [digit_ne (x := 'e') (digital c member) rfl, digit_ne (x := 'E') (digital c member) rfl]
  have point : ∀ c ∈ digits, (decide (c ≠ '.')) = true := fun c member => by
    simp [digit_ne (x := '.') (digital c member) rfl]
  unfold scanFinite
  rw [List.takeWhile_eq_self_iff.mpr mantissa, List.dropWhile_eq_nil_iff.mpr mantissa]
  simp only
  rw [List.takeWhile_eq_self_iff.mpr point, List.dropWhile_eq_nil_iff.mpr point, List.drop_nil,
    List.append_nil, if_pos ⟨some_digit, List.all_eq_true.mpr digital⟩]
  rfl

theorem scanFinite_fraction (negative : Bool) {whole fraction : List Char} (left : Digital whole)
    (right : Digital fraction) (some_digit : whole ≠ []) :
    scanFinite negative (whole ++ '.' :: fraction) =
      some ⟨negative, ofDigits (whole ++ fraction), -(fraction.length : Int)⟩ := by
  have mantissa : ∀ c ∈ whole ++ '.' :: fraction, (c ≠ 'e' && c ≠ 'E') = true := fun c member => by
    rcases List.mem_append.mp member with inside | inside
    · simp [digit_ne (x := 'e') (left c inside) rfl, digit_ne (x := 'E') (left c inside) rfl]
    · rcases List.mem_cons.mp inside with rfl | inside
      · rfl
      · simp [digit_ne (x := 'e') (right c inside) rfl, digit_ne (x := 'E') (right c inside) rfl]
  have point : ∀ c ∈ whole, (decide (c ≠ '.')) = true := fun c member => by
    simp [digit_ne (x := '.') (left c member) rfl]
  unfold scanFinite
  rw [List.takeWhile_eq_self_iff.mpr mantissa, List.dropWhile_eq_nil_iff.mpr mantissa]
  simp only
  rw [List.takeWhile_append_of_pos point, List.dropWhile_append_of_pos point]
  have stop : ('.' :: fraction).takeWhile (fun c => decide (c ≠ '.')) = [] := rfl
  have rest : ('.' :: fraction).dropWhile (fun c => decide (c ≠ '.')) = '.' :: fraction := rfl
  have nonempty : whole ++ fraction ≠ [] := List.append_ne_nil_of_left_ne_nil some_digit _
  rw [stop, rest, List.append_nil, List.drop_one, List.tail_cons,
    if_pos ⟨nonempty, List.all_eq_true.mpr (left.append right)⟩]
  simp [scanExponent]

theorem rstrip_append (ch : Char) (front back : List Char) : rstrip ch (front ++ back) =
    if rstrip ch back = [] then rstrip ch front else front ++ rstrip ch back := by
  simp only [rstrip, List.rdropWhile, List.reverse_append, List.dropWhile_append,
    List.reverse_eq_nil_iff, List.isEmpty_iff]
  split <;> simp

theorem rstrip_digital {ch : Char} (other : ch.isDigit = false) (digital : Digital digits) :
    rstrip ch digits = digits := by
  refine List.rdropWhile_eq_self_iff.mpr fun nonempty last => ?_
  have same : digits.getLast nonempty = ch := of_decide_eq_true last
  exact digit_ne (digital _ (List.getLast_mem nonempty)) other same

theorem exists_zeros (fraction : List Char) :
    ∃ n, fraction = rstrip '0' fraction ++ List.replicate n '0' := by
  refine ⟨(fraction.rtakeWhile fun c => c = '0').length, ?_⟩
  have zeros : fraction.rtakeWhile (fun c => c = '0') =
      List.replicate (fraction.rtakeWhile fun c => c = '0').length '0' :=
    List.eq_replicate_of_mem fun c member => by simpa using List.mem_rtakeWhile_imp member
  rw [← zeros]
  exact List.rdropWhile_append_rtakeWhile.symm

private theorem sign_append (negative : Bool) (some_digit : digits ≠ []) (digital : Digital digits)
    (rest : List Char) :
    scan ((if negative then ['-'] else []) ++ (digits ++ rest)) =
      (scanFinite negative (digits ++ rest)).map .finite := by
  cases digits with
  | nil => exact absurd rfl some_digit
  | cons c digits => exact scan_body negative (digital c List.mem_cons_self) (digits ++ rest)

private theorem plain_whole (whole : 0 ≤ d.exponent) :
    ∃ digits, Digital digits ∧ digits ≠ [] ∧ (ofDigits digits : ℚ) =
      d.coefficient * 10 ^ d.exponent ∧
      (Number.finite d).plain = (if d.negative then ['-'] else []) ++ digits := by
  have plain {digits : List Char} (digital : Digital digits) (fixed : d.fixed = digits) :
      (Number.finite d).plain = (if d.negative then ['-'] else []) ++ digits := by
    rw [Number.plain, Number.fixed, fixed, if_neg]
    intro member
    rcases List.mem_append.mp member with sign | digit
    · split at sign
      · exact absurd (List.mem_singleton.mp sign) (by decide)
      · cases sign
    · exact absurd (digital _ digit) (by decide)
  by_cases zero : d.coefficient = 0
  · have digital : Digital ['0'] := digital_zeros 1
    refine ⟨['0'], digital, by simp, ?_, plain digital ?_⟩
    · simp [zero, ofDigits, Nat.ofDigitChars]
    · rw [Finite.fixed, if_pos whole, if_pos zero]
  · have digital := (digital_toDigits d.coefficient).append (digital_zeros d.exponent.toNat)
    refine ⟨_, digital, List.append_ne_nil_of_left_ne_nil Nat.toDigits_ne_nil _, ?_,
      plain digital ?_⟩
    · have power : (10 : ℚ) ^ d.exponent = 10 ^ d.exponent.toNat := by
        rw [← zpow_natCast, Int.toNat_of_nonneg whole]
      rw [ofDigits_append_zeros, ofDigits, Nat.ofDigitChars_ten_toDigits, power]
      push_cast
      rfl
    · rw [Finite.fixed, if_pos whole, if_neg zero]

private theorem fixed_fraction (below : d.exponent < 0) :
    ∃ whole fraction, Digital whole ∧ Digital fraction ∧ whole ≠ [] ∧
      ofDigits (whole ++ fraction) = d.coefficient ∧ -(fraction.length : Int) = d.exponent ∧
      d.fixed = whole ++ '.' :: fraction := by
  have wide := le_length_padded ((-d.exponent).toNat + 1) d.coefficient
  have digital := digital_padded ((-d.exponent).toNat + 1) d.coefficient
  have value := ofDigits_padded ((-d.exponent).toNat + 1) d.coefficient
  have fixed : d.fixed =
      (padded ((-d.exponent).toNat + 1) d.coefficient).take
        ((padded ((-d.exponent).toNat + 1) d.coefficient).length - (-d.exponent).toNat) ++
      '.' :: (padded ((-d.exponent).toNat + 1) d.coefficient).drop
        ((padded ((-d.exponent).toNat + 1) d.coefficient).length - (-d.exponent).toNat) :=
    if_neg (not_le.mpr below)
  generalize padded ((-d.exponent).toNat + 1) d.coefficient = digits at wide digital value fixed
  refine ⟨digits.take (digits.length - (-d.exponent).toNat),
    digits.drop (digits.length - (-d.exponent).toNat),
    fun c member => digital c (List.mem_of_mem_take member),
    fun c member => digital c (List.mem_of_mem_drop member), ?_, ?_, ?_, fixed⟩
  · rw [← List.length_pos_iff, List.length_take]
    omega
  · rw [List.take_append_drop]
    exact value
  · rw [List.length_drop]
    omega

private theorem plain_fraction (below : d.exponent < 0) :
    ∃ whole fraction, ∃ n : Nat, Digital whole ∧ Digital fraction ∧ whole ≠ [] ∧
      ofDigits (whole ++ fraction) * 10 ^ n = d.coefficient ∧
      -(fraction.length : Int) = d.exponent + n ∧
      (Number.finite d).plain = (if d.negative then ['-'] else []) ++
        (whole ++ if fraction = [] then [] else '.' :: fraction) := by
  obtain ⟨whole, fraction, left, right, some_digit, value, places, fixed⟩ := fixed_fraction below
  obtain ⟨n, split⟩ := exists_zeros fraction
  have kept : Digital (rstrip '0' fraction) := fun c member =>
    right c (by rw [split]; exact List.mem_append_left _ member)
  refine ⟨whole, rstrip '0' fraction, n, left, kept, some_digit, ?_, ?_, ?_⟩
  · rw [← ofDigits_append_zeros, List.append_assoc, ← split]
    exact value
  · have length := congrArg List.length split
    rw [List.length_append, List.length_replicate] at length
    omega
  · have shape : (Number.finite d).fixed =
        ((if d.negative then ['-'] else []) ++ whole ++ ['.']) ++ fraction := by
      rw [Number.fixed, fixed]
      simp
    have point : '.' ∈ (Number.finite d).fixed := by
      rw [shape]
      simp
    have dot : rstrip '0' ['.'] = ['.'] := by decide
    have dots : rstrip '.' ['.'] = [] := by decide
    have stripped : rstrip '0' (Number.finite d).fixed =
        ((if d.negative then ['-'] else []) ++ whole ++ ['.']) ++ rstrip '0' fraction := by
      rw [shape, rstrip_append]
      split
      · rename_i none
        rw [rstrip_append, dot, if_neg (by simp), none, List.append_nil]
      · rfl
    rw [Number.plain, if_pos point, stripped, rstrip_append, rstrip_digital (by decide) kept]
    split
    · rw [rstrip_append, dots, if_pos rfl, rstrip_append, rstrip_digital (by decide) left,
        if_neg some_digit, List.append_nil]
    · simp

theorem mem_plain (member : c ∈ (Number.finite d).plain) :
    c.isDigit = true ∨ c = '.' ∨ c = '-' := by
  have sign (inside : c ∈ if d.negative then ['-'] else []) : c = '-' := by
    split at inside
    · exact List.mem_singleton.mp inside
    · cases inside
  by_cases whole : 0 ≤ d.exponent
  · obtain ⟨digits, digital, -, -, plain⟩ := plain_whole whole
    rw [plain] at member
    rcases List.mem_append.mp member with inside | inside
    · exact .inr (.inr (sign inside))
    · exact .inl (digital c inside)
  · obtain ⟨digits, fraction, n, left, right, -, -, -, plain⟩ := plain_fraction (not_le.mp whole)
    rw [plain] at member
    rcases List.mem_append.mp member with inside | inside
    · exact .inr (.inr (sign inside))
    · rcases List.mem_append.mp inside with inside | inside
      · exact .inl (left c inside)
      · split at inside
        · cases inside
        · rcases List.mem_cons.mp inside with rfl | inside
          · exact .inr (.inl rfl)
          · exact .inl (right c inside)

theorem scan_plain (d : Finite) :
    ∃ r, scan (Number.finite d).plain = some (.finite r) ∧ r.value = d.value := by
  by_cases whole : 0 ≤ d.exponent
  · obtain ⟨digits, digital, some_digit, value, plain⟩ := plain_whole whole
    have read := sign_append d.negative some_digit digital []
    rw [List.append_nil, scanFinite_whole d.negative digital some_digit] at read
    refine ⟨⟨d.negative, ofDigits digits, 0⟩, by rw [plain, read]; rfl, value_congr rfl ?_⟩
    simp [value]
  · obtain ⟨digits, fraction, n, left, right, some_digit, value, places, plain⟩ :=
      plain_fraction (not_le.mp whole)
    have scaled : (ofDigits (digits ++ fraction) : ℚ) * 10 ^ (-(fraction.length : Int)) =
        d.coefficient * 10 ^ d.exponent := by
      rw [places, ← value, zpow_add₀ (by norm_num), zpow_natCast]
      push_cast
      ring
    by_cases none : fraction = []
    · have read := sign_append d.negative some_digit left []
      rw [List.append_nil, scanFinite_whole d.negative left some_digit] at read
      rw [if_pos none, List.append_nil] at plain
      refine ⟨⟨d.negative, ofDigits digits, 0⟩, by rw [plain, read]; rfl, value_congr rfl ?_⟩
      rw [none, List.append_nil] at scaled
      exact scaled
    · have read := sign_append d.negative some_digit left ('.' :: fraction)
      rw [scanFinite_fraction d.negative left right some_digit] at read
      rw [if_neg none] at plain
      exact ⟨⟨d.negative, ofDigits (digits ++ fraction), -(fraction.length : Int)⟩,
        by rw [plain, read]; rfl, value_congr rfl scaled⟩

end ProofRay.Lib.Decimal
