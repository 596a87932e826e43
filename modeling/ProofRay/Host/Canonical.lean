/- Canonical JSON in two languages, Dart and Python.  They differ in what they make of numbers, of
   surrogates and of the order of keys. -/

import ProofRay.Lib.Binary64
import ProofRay.Lib.SpelledNormal

namespace ProofRay.Host

open Lib (Binary64 Json Point)
open Lib.Spelled (Digits IsLiteral IsUnsigned Style digits_toDigits isLiteral_number
  lead_toDigits)

def isWhole (literal : List Char) : Bool :=
  literal.all fun c => c ≠ '.' && c ≠ 'e' && c ≠ 'E'

def wholeValue : List Char → Int
  | '-' :: digits => -(Nat.ofDigitChars 10 digits 0 : Int)
  | digits => (Nat.ofDigitChars 10 digits 0 : Int)

def exponentValue : List Char → Int
  | _ :: '-' :: digits => -(Nat.ofDigitChars 10 digits 0 : Int)
  | _ :: '+' :: digits => (Nat.ofDigitChars 10 digits 0 : Int)
  | _ :: digits => (Nat.ofDigitChars 10 digits 0 : Int)
  | [] => 0

/-- A double: its sign and its magnitude. -/
structure Double where
  negative : Bool
  magnitude : Binary64
  deriving DecidableEq

def double (literal : List Char) : Option Double :=
  let negative := literal.head? = some '-'
  let unsigned := if negative then literal.tail else literal
  let mantissa := unsigned.takeWhile fun c => c ≠ 'e' && c ≠ 'E'
  let exponent := exponentValue (unsigned.dropWhile fun c => c ≠ 'e' && c ≠ 'E')
  let whole := mantissa.takeWhile fun c => c ≠ '.'
  let fraction := (mantissa.dropWhile fun c => c ≠ '.').tail
  let digits := Nat.ofDigitChars 10 (whole ++ fraction) 0
  (Binary64.nearest (.scaled 10 digits (exponent - fraction.length))).map (Double.mk negative)

def Double.isNat (x : Double) (n : Nat) : Bool :=
  x.magnitude.value.same ⟨n, 1⟩ && (!x.negative || n = 0)

/-- How a language lays out the digits of a double: without an exponent while the point is above
`above` and up to `upTo` digits from the first digit, and else with an exponent of at least `width`
digits. -/
structure Layout where
  above : Int
  upTo : Int
  width : Nat

/-- `double.toString`. -/
def dartLayout : Layout := ⟨-6, 21, 1⟩

/-- `float.__repr__`. -/
def pythonLayout : Layout := ⟨-4, 16, 2⟩

def fixed (digits : List Char) (point : Int) : List Char :=
  if (digits.length : Int) ≤ point then
    digits ++ List.replicate (point.toNat - digits.length) '0' ++ ['.', '0']
  else if 0 < point then digits.take point.toNat ++ '.' :: digits.drop point.toNat
  else '0' :: '.' :: List.replicate (-point).toNat '0' ++ digits

def padded (width n : Nat) : List Char :=
  List.replicate (width - (Nat.toDigits 10 n).length) '0' ++ Nat.toDigits 10 n

def scientific (width : Nat) (digits : List Char) (point : Int) : List Char :=
  let exponent := point - 1
  digits.take 1 ++ (if digits.tail = [] then [] else '.' :: digits.tail) ++
    'e' :: (if exponent < 0 then '-' else '+') :: padded width exponent.natAbs

def Layout.text (l : Layout) (negative : Bool) (shortest : Nat × Int) : List Char :=
  let digits := Nat.toDigits 10 shortest.1
  let point := shortest.2 + digits.length
  (if negative then ['-'] else []) ++
    if l.above < point ∧ point ≤ l.upTo then fixed digits point
    else scientific l.width digits point

def Layout.double (l : Layout) (literal : List Char) : Option (List Char) :=
  (Host.double literal).bind fun x => x.magnitude.shortest.map (l.text x.negative)

def InInt64 (i : Int) : Prop := -2 ^ 63 ≤ i ∧ i < 2 ^ 63

instance (i : Int) : Decidable (InInt64 i) := inferInstanceAs (Decidable (_ ∧ _))

/-- What Dart makes of a literal: an `int` when it is a whole number of 64 bits, else a `double`. -/
def dartNumber (literal : List Char) : Option (List Char) :=
  if isWhole literal ∧ InInt64 (wholeValue literal) then some (Json.number (wholeValue literal))
  else dartLayout.double literal

/-- What Python makes of a literal: an `int` of at most 4300 digits when it is a whole number, else
a `float`. -/
def pythonNumber (literal : List Char) : Option (List Char) :=
  if isWhole literal then
    if (literal.filter Char.isDigit).length ≤ 4300 then some (Json.number (wholeValue literal))
    else none
  else pythonLayout.double literal

def escapeUnit (unit : Nat) : List Char :=
  ['\\', 'u', Json.hexDigit (unit / 4096), Json.hexDigit (unit / 256 % 16),
    Json.hexDigit (unit / 16 % 16), Json.hexDigit (unit % 16)]

/-- `jsonEncode(_canonicalValue(value))`. -/
def dart : Style where
  number := dartNumber
  point
    | .char c => some (Json.escape c)
    | .lone unit => some (escapeUnit unit)
  key t := t.flatMap Point.units

/-- `_canonical`: a surrogate that stands alone cannot be encoded. -/
def python : Style where
  number := pythonNumber
  point
    | .char c => some (Json.escape c)
    | .lone _ => none
  key t := t.map Point.code

variable {ds : List Char} {l : Layout} {i : Int}

private theorem digits_append_zeros (digits : Digits ds) (n : Nat) :
    Digits (ds ++ List.replicate n '0') := by
  refine ⟨by simp [digits.1], fun c member => ?_⟩
  rcases List.mem_append.mp member with first | later
  · exact digits.2 c first
  · rw [List.eq_of_mem_replicate later]
    rfl

private theorem digits_zeros_append (digits : Digits ds) (n : Nat) :
    Digits (List.replicate n '0' ++ ds) := by
  refine ⟨by simp [digits.1], fun c member => ?_⟩
  rcases List.mem_append.mp member with first | later
  · rw [List.eq_of_mem_replicate first]
    rfl
  · exact digits.2 c later

variable {n : Nat}

private theorem head_ne_of_length (long : 1 < (Nat.toDigits 10 n).length) :
    (Nat.toDigits 10 n).head? ≠ some '0' := fun zero =>
  lead_toDigits n ⟨by omega, zero⟩

private theorem isUnsigned_fixed {power : Int} (zero : n = 0 → power = 0) :
    IsUnsigned (fixed (Nat.toDigits 10 n) (power + (Nat.toDigits 10 n).length)) := by
  have digits := digits_toDigits n
  have some_digit := List.length_pos_iff.mpr digits.1
  unfold fixed
  split_ifs with whole inside
  · refine ⟨Nat.toDigits 10 n ++ List.replicate
        ((power + (Nat.toDigits 10 n).length).toNat - (Nat.toDigits 10 n).length) '0',
      ['.', '0'], [], by simp, digits_append_zeros digits _, ?_,
      .inr ⟨['0'], rfl, by simp, by simp⟩, .inl rfl⟩
    rintro ⟨long, first⟩
    rcases Nat.eq_zero_or_pos n with rfl | positive
    · rw [zero rfl] at long
      simp at long
    · refine Json.head_toDigits positive ?_
      rwa [List.head?_append_of_ne_nil _ digits.1] at first
  · have split : 0 < (power + (Nat.toDigits 10 n).length).toNat ∧
        (power + (Nat.toDigits 10 n).length).toNat < (Nat.toDigits 10 n).length := by omega
    generalize (power + (Nat.toDigits 10 n).length).toNat = k at split ⊢
    refine ⟨(Nat.toDigits 10 n).take k, '.' :: (Nat.toDigits 10 n).drop k, [], by simp,
      ⟨?_, ?_⟩, ?_,
      .inr ⟨_, rfl, ?_, ?_⟩, .inl rfl⟩
    · intro none
      have length := congrArg List.length none
      rw [List.length_take, List.length_nil] at length
      omega
    · exact fun c member => digits.2 c (List.mem_of_mem_take member)
    · rintro ⟨-, first⟩
      rw [List.head?_take, if_neg (by omega)] at first
      exact head_ne_of_length (by omega) first
    · intro none
      have length := congrArg List.length none
      rw [List.length_drop, List.length_nil] at length
      omega
    · exact fun c member => digits.2 c (List.mem_of_mem_drop member)
  · exact ⟨['0'], '.' :: (List.replicate (-(power + (Nat.toDigits 10 n).length)).toNat '0' ++
        Nat.toDigits 10 n), [], by simp,
      ⟨by simp, by simp⟩, by simp, .inr ⟨_, rfl, digits_zeros_append digits _⟩, .inl rfl⟩

private theorem isUnsigned_scientific (width n : Nat) (point : Int) :
    IsUnsigned (scientific width (Nat.toDigits 10 n) point) := by
  have digits := digits_toDigits n
  obtain ⟨first, rest, same⟩ := List.exists_cons_of_ne_nil digits.1
  have isDigit : first.isDigit = true := digits.2 first (by rw [same]; exact List.mem_cons_self)
  have padding : Digits (padded width (point - 1).natAbs) :=
    digits_zeros_append (digits_toDigits _) _
  unfold scientific
  rw [same]
  refine ⟨[first], if rest = [] then [] else '.' :: rest,
    'e' :: (if point - 1 < 0 then '-' else '+') :: padded width (point - 1).natAbs, ?_,
    ⟨by simp, by simpa using isDigit⟩, by simp, ?_, .inr ⟨[if point - 1 < 0 then '-' else '+'], _,
      rfl, ?_, padding⟩⟩
  · by_cases none : rest = []
    · simp [none]
    · simp [none]
  · split_ifs with none
    · exact .inl rfl
    · refine .inr ⟨rest, rfl, none, fun c member => digits.2 c ?_⟩
      rw [same]
      exact List.mem_cons_of_mem _ member
  · split_ifs
    · exact .inr rfl
    · exact .inl rfl

theorem isLiteral_double {literal text : List Char} (written : l.double literal = some text) :
    IsLiteral text := by
  obtain ⟨x, -, there⟩ := Option.bind_eq_some_iff.mp written
  obtain ⟨⟨n, power⟩, shortest, rfl⟩ := Option.map_eq_some_iff.mp there
  have unsigned : IsUnsigned (if l.above < power + (Nat.toDigits 10 n).length ∧
      power + (Nat.toDigits 10 n).length ≤ l.upTo then
        fixed (Nat.toDigits 10 n) (power + (Nat.toDigits 10 n).length)
      else scientific l.width (Nat.toDigits 10 n) (power + (Nat.toDigits 10 n).length)) := by
    split_ifs
    · exact isUnsigned_fixed fun zero => Binary64.eq_zero_of_shortest shortest zero
    · exact isUnsigned_scientific _ _ _
  unfold Layout.text
  cases x.negative with
  | false => exact .inl unsigned
  | true => exact .inr ⟨_, unsigned, rfl⟩

theorem lawful_dart : dart.Lawful where
  number literal text written := by
    change dartNumber literal = some text at written
    unfold dartNumber at written
    split_ifs at written
    · cases written
      exact isLiteral_number _
    · exact isLiteral_double written
  point _ := rfl

theorem lawful_python : python.Lawful where
  number literal text written := by
    change pythonNumber literal = some text at written
    unfold pythonNumber at written
    split_ifs at written
    · cases written
      exact isLiteral_number _
    · exact isLiteral_double written
  point _ := rfl

theorem refusesLone_python : python.RefusesLone := fun _ => rfl

theorem isWhole_number (i : Int) : isWhole (Json.number i) = true := by
  have digits : ∀ n, isWhole (Nat.toDigits 10 n) = true := fun n =>
    List.all_eq_true.mpr fun c member => by
      have digit := (digits_toDigits n).2 c member
      have others : c ≠ '.' ∧ c ≠ 'e' ∧ c ≠ 'E' := by
        refine ⟨?_, ?_, ?_⟩ <;> rintro rfl <;> cases digit
      simp [others]
  cases i with
  | ofNat n => exact digits n
  | negSucc n =>
    have rest := digits (n + 1)
    unfold isWhole at rest ⊢
    rw [Json.number, List.all_cons, rest]
    rfl

theorem wholeValue_number (i : Int) : wholeValue (Json.number i) = i := by
  cases i with
  | ofNat n =>
    have digits := digits_toDigits n
    rw [Json.number, wholeValue]
    · rw [Nat.ofDigitChars_ten_toDigits]
      rfl
    · intro rest negative
      have digit := digits.2 '-' (by rw [negative]; exact List.mem_cons_self)
      cases digit
  | negSucc n =>
    rw [Json.number, wholeValue, Nat.ofDigitChars_ten_toDigits]
    rfl

private theorem mem_scientific (width : Nat) (digits : List Char) (point : Int) :
    'e' ∈ scientific width digits point := by
  unfold scientific
  split_ifs <;> simp

private theorem mem_fixed (digits : List Char) (point : Int) : '.' ∈ fixed digits point := by
  unfold fixed
  split_ifs <;> simp

private theorem isWhole_text (l : Layout) (negative : Bool) (shortest : Nat × Int) :
    isWhole (l.text negative shortest) = false := by
  refine List.all_eq_false.mpr ?_
  dsimp only [Layout.text]
  by_cases inside : l.above < shortest.2 + (Nat.toDigits 10 shortest.1).length ∧
      shortest.2 + (Nat.toDigits 10 shortest.1).length ≤ l.upTo
  · rw [if_pos inside]
    exact ⟨'.', List.mem_append_right _ (mem_fixed _ _), by simp⟩
  · rw [if_neg inside]
    exact ⟨'e', List.mem_append_right _ (mem_scientific _ _ _), by simp⟩

theorem isWhole_double {literal text : List Char} (written : l.double literal = some text) :
    isWhole text = false := by
  obtain ⟨x, -, there⟩ := Option.bind_eq_some_iff.mp written
  obtain ⟨shortest, -, rfl⟩ := Option.map_eq_some_iff.mp there
  exact isWhole_text l x.negative shortest

theorem dartNumber_number_iff (i : Int) :
    dartNumber (Json.number i) = some (Json.number i) ↔ InInt64 i := by
  unfold dartNumber
  rw [isWhole_number, wholeValue_number]
  by_cases small : InInt64 i
  · simp [small]
  · rw [if_neg (by simp [small])]
    refine ⟨fun written => ?_, fun small' => absurd small' small⟩
    have point := isWhole_double written
    rw [isWhole_number] at point
    cases point

private theorem length_digits_of_inInt64 (small : InInt64 i) :
    ((Json.number i).filter Char.isDigit).length ≤ 4300 := by
  have bound {n : Nat} (below : n ≤ 2 ^ 63) : (Nat.toDigits 10 n).length ≤ 4300 := by
    have short := (Nat.length_toDigits_le_iff (show 1 < 10 by decide)
      (show 0 < 20 by decide)).mpr (show n < 10 ^ 20 by omega)
    omega
  unfold InInt64 at small
  cases i with
  | ofNat n =>
    refine Nat.le_trans (List.length_filter_le _ _) (bound ?_)
    simp only [Int.ofNat_eq_natCast] at small
    omega
  | negSucc n =>
    refine Nat.le_trans (List.length_filter_le Char.isDigit (Nat.toDigits 10 (n + 1))) (bound ?_)
    omega

theorem pythonNumber_number (small : InInt64 i) :
    pythonNumber (Json.number i) = some (Json.number i) := by
  unfold pythonNumber
  rw [if_pos (isWhole_number i), if_pos (length_digits_of_inInt64 small), wholeValue_number]

def pointOf (shortest : Nat × Int) : Int := shortest.2 + (Nat.toDigits 10 shortest.1).length

def LaidApart (point : Int) : Prop := (-9 < point ∧ point ≤ -4) ∨ (16 < point ∧ point ≤ 21)

instance (point : Int) : Decidable (LaidApart point) := inferInstanceAs (Decidable (_ ∨ _))

def LaidAlike (literal : List Char) : Prop :=
  isWhole literal = true ∨ ∀ x, double literal = some x → ∀ shortest,
    x.magnitude.shortest = some shortest → ¬LaidApart (pointOf shortest)

private theorem not_mem_fixed (point : Int) : 'e' ∉ fixed (Nat.toDigits 10 n) point := by
  have none : 'e' ∉ Nat.toDigits 10 n := fun member => by
    have digit := (digits_toDigits n).2 _ member
    cases digit
  unfold fixed
  split_ifs
  · simp [none]
  · have first : 'e' ∉ (Nat.toDigits 10 n).take point.toNat := fun member =>
      none (List.mem_of_mem_take member)
    have later : 'e' ∉ (Nat.toDigits 10 n).drop point.toNat := fun member =>
      none (List.mem_of_mem_drop member)
    simp [first, later]
  · simp [none]

private theorem scientific_eq_iff (digits : List Char) (point : Int) :
    scientific 1 digits point = scientific 2 digits point ↔ 10 ≤ (point - 1).natAbs := by
  have long : (Nat.toDigits 10 (point - 1).natAbs).length ≤ 1 ↔ (point - 1).natAbs < 10 := by
    simpa using Nat.length_toDigits_le_iff (b := 10) (n := (point - 1).natAbs) (k := 1)
      (by decide) (by decide)
  have some_digit : 0 < (Nat.toDigits 10 (point - 1).natAbs).length := Nat.length_toDigits_pos
  dsimp only [scientific, padded]
  constructor
  · intro same
    have length := congrArg List.length same
    simp at length
    omega
  · intro enough
    have none : 1 - (Nat.toDigits 10 (point - 1).natAbs).length = 0 ∧
        2 - (Nat.toDigits 10 (point - 1).natAbs).length = 0 := by omega
    rw [none.1, none.2]

private theorem text_eq_iff (negative : Bool) (shortest : Nat × Int) :
    dartLayout.text negative shortest = pythonLayout.text negative shortest ↔
      ¬LaidApart (pointOf shortest) := by
  unfold Layout.text dartLayout pythonLayout LaidApart
  simp only [List.append_cancel_left_eq]
  change (if -6 < pointOf shortest ∧ pointOf shortest ≤ 21 then
      fixed (Nat.toDigits 10 shortest.1) (pointOf shortest)
    else scientific 1 (Nat.toDigits 10 shortest.1) (pointOf shortest)) =
    (if -4 < pointOf shortest ∧ pointOf shortest ≤ 16 then
      fixed (Nat.toDigits 10 shortest.1) (pointOf shortest)
    else scientific 2 (Nat.toDigits 10 shortest.1) (pointOf shortest)) ↔ _
  generalize pointOf shortest = point
  have apart : ∀ width, fixed (Nat.toDigits 10 shortest.1) point ≠
      scientific width (Nat.toDigits 10 shortest.1) point := fun width same =>
    not_mem_fixed point (same ▸ mem_scientific width _ point)
  split_ifs with inDart inPython inPython
  · simp only [true_iff]
    omega
  · simp only [apart, false_iff, not_not]
    omega
  · omega
  · rw [scientific_eq_iff]
    omega

theorem pythonNumber_iff {literal : List Char} (spelled : dartNumber literal = some literal) :
    pythonNumber literal = some literal ↔ LaidAlike literal := by
  unfold LaidAlike
  by_cases whole : isWhole literal = true
  · refine ⟨fun _ => .inl whole, fun _ => ?_⟩
    unfold dartNumber at spelled
    split_ifs at spelled with small
    · rw [Option.some.injEq] at spelled
      rw [← spelled]
      exact pythonNumber_number small.2
    · have point := isWhole_double spelled
      rw [whole] at point
      cases point
  · unfold dartNumber at spelled
    rw [if_neg fun both => whole both.1] at spelled
    obtain ⟨x, read, there⟩ := Option.bind_eq_some_iff.mp spelled
    obtain ⟨shortest, found, text⟩ := Option.map_eq_some_iff.mp there
    have written : pythonNumber literal = some (pythonLayout.text x.negative shortest) := by
      unfold pythonNumber Layout.double
      rw [if_neg whole, read, Option.bind_some, found, Option.map_some]
    rw [written, Option.some.injEq, ← text, eq_comm, text_eq_iff, text, read]
    constructor
    · rintro alike
      refine .inr ?_
      rintro _ ⟨⟩ other there
      rw [found, Option.some.injEq] at there
      rwa [← there]
    · rintro (whole' | alike)
      · exact absurd whole' whole
      · exact alike x rfl shortest found

end ProofRay.Host
