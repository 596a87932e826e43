/- Dates and times of day in the ISO 8601 format of fixed widths, and the reading of that format,
   which gives back what was written. -/

import ProofRay.Lib.Gregorian
import ProofRay.Lib.Numeral

namespace ProofRay.Lib.IsoFormat

open Lib.Decimal (ofDigits padded digital_padded ofDigits_padded)
open Lib.Gregorian (Date)

/-- The next `width` characters as a number, and what is behind them. -/
def number (width : Nat) (text : List Char) : Option (Nat × List Char) :=
  if (text.take width).length = width ∧ (text.take width).all Char.isDigit = true then
    some (ofDigits (text.take width), text.drop width)
  else none

/-- What is behind the character `c`. -/
def expect (c : Char) : List Char → Option (List Char)
  | [] => none
  | first :: rest => if first = c then some rest else none

variable {rest : List Char} {width n : Nat}

theorem length_padded (small : n < 10 ^ width) (positive : 0 < width) :
    (padded width n).length = width := by
  have short : (Nat.toDigits 10 n).length ≤ width :=
    (Nat.length_toDigits_le_iff (by decide) positive).mpr small
  rw [padded, List.length_append, List.length_replicate]
  omega

theorem number_padded (small : n < 10 ^ width) (positive : 0 < width) (rest : List Char) :
    number width (padded width n ++ rest) = some (n, rest) := by
  have length := length_padded small positive
  have front : (padded width n ++ rest).take width = padded width n := List.take_left' length
  have back : (padded width n ++ rest).drop width = rest := List.drop_left' length
  rw [number, front, back, ofDigits_padded, if_pos ⟨length, List.all_eq_true.mpr
    (digital_padded width n)⟩]

@[simp] theorem expect_cons (c : Char) (rest : List Char) : expect c (c :: rest) = some rest := by
  rw [expect, if_pos rfl]

/-- `date.isoformat()`. -/
def dateText (d : Date) : List Char :=
  padded 4 d.year ++ '-' :: padded 2 d.month ++ '-' :: padded 2 d.day

def readDate (text : List Char) : Option (Date × List Char) := do
  let (year, text) ← number 4 text
  let text ← expect '-' text
  let (month, text) ← number 2 text
  let text ← expect '-' text
  let (day, text) ← number 2 text
  let date ← Date.ofNumbers year month day
  pure (date, text)

theorem readDate_dateText (d : Date) (rest : List Char) :
    readDate (dateText d ++ rest) = some (d, rest) := by
  obtain ⟨⟨_, lastYear⟩, ⟨_, lastMonth⟩, _, lastDay⟩ := d.valid
  have days : Lib.Gregorian.daysInMonth d.year d.month ≤ 31 := by
    unfold Lib.Gregorian.daysInMonth
    split_ifs <;> decide
  have years : d.year ≤ 9999 := lastYear
  have whole : Date.ofNumbers d.year d.month d.day = some d := by
    rw [Date.ofNumbers, dif_pos d.valid]
  simp only [dateText, List.append_assoc, List.cons_append, readDate, bind, Option.bind,
    number_padded (show d.year < 10 ^ 4 by omega) (by decide),
    number_padded (show d.month < 10 ^ 2 by omega) (by decide),
    number_padded (show d.day < 10 ^ 2 by omega) (by decide), expect_cons, whole]
  rfl

/-- A time of day to the microsecond. -/
structure Time where
  hour : Nat
  minute : Nat
  second : Nat
  microsecond : Nat
  valid : hour < 24 ∧ minute < 60 ∧ second < 60 ∧ microsecond < 1000000
  deriving DecidableEq, Repr

def Time.ofNumbers (hour minute second microsecond : Nat) : Option Time :=
  if valid : hour < 24 ∧ minute < 60 ∧ second < 60 ∧ microsecond < 1000000 then
    some ⟨hour, minute, second, microsecond, valid⟩
  else none

theorem Time.ofNumbers_self (t : Time) :
    Time.ofNumbers t.hour t.minute t.second t.microsecond = some t := by
  rw [Time.ofNumbers, dif_pos t.valid]

def fractionText (microsecond : Nat) : List Char :=
  if microsecond = 0 then [] else '.' :: padded 6 microsecond

def readFraction : List Char → Option (Nat × List Char)
  | '.' :: text => number 6 text
  | text => some (0, text)

def Stops (text : List Char) : Prop := ∀ rest, text ≠ '.' :: rest

theorem readFraction_fractionText {microsecond : Nat} (small : microsecond < 1000000)
    (stops : Stops rest) :
    readFraction (fractionText microsecond ++ rest) = some (microsecond, rest) := by
  unfold fractionText
  by_cases none : microsecond = 0
  · rw [if_pos none, List.nil_append, none]
    unfold readFraction
    split
    · next text => exact absurd rfl (stops text)
    · rfl
  · rw [if_neg none, List.cons_append, readFraction, number_padded small (by decide)]

/-- `time.isoformat()`. -/
def timeText (t : Time) : List Char :=
  padded 2 t.hour ++ ':' :: padded 2 t.minute ++ ':' :: padded 2 t.second ++
    fractionText t.microsecond

def readTime (text : List Char) : Option (Time × List Char) := do
  let (hour, text) ← number 2 text
  let text ← expect ':' text
  let (minute, text) ← number 2 text
  let text ← expect ':' text
  let (second, text) ← number 2 text
  let (microsecond, text) ← readFraction text
  let time ← Time.ofNumbers hour minute second microsecond
  pure (time, text)

theorem readTime_timeText (t : Time) (stops : Stops rest) :
    readTime (timeText t ++ rest) = some (t, rest) := by
  obtain ⟨hours, minutes, seconds, micros⟩ := t.valid
  simp only [timeText, List.append_assoc, List.cons_append, readTime, bind, Option.bind,
    number_padded (show t.hour < 10 ^ 2 by omega) (by decide),
    number_padded (show t.minute < 10 ^ 2 by omega) (by decide),
    number_padded (show t.second < 10 ^ 2 by omega) (by decide), expect_cons,
    readFraction_fractionText micros stops, t.ofNumbers_self]
  rfl

def Time.IsZero (t : Time) : Prop :=
  t.hour = 0 ∧ t.minute = 0 ∧ t.second = 0 ∧ t.microsecond = 0

instance (t : Time) : Decidable t.IsZero :=
  inferInstanceAs (Decidable (t.hour = 0 ∧ t.minute = 0 ∧ t.second = 0 ∧ t.microsecond = 0))

/-- A difference of less than a day to UTC; none has two signs. -/
structure Offset where
  negative : Bool
  size : Time
  valid : negative = true → ¬ size.IsZero
  deriving DecidableEq, Repr

theorem Offset.valid_positive (size : Time) : false = true → ¬ size.IsZero := nofun

theorem Offset.valid_nonzero {size : Time} (nonzero : ¬ size.IsZero) (negative : Bool) :
    negative = true → ¬ size.IsZero := fun _ => nonzero

def Offset.ofParts (negative : Bool) (size : Time) : Offset :=
  if zero : size.IsZero then ⟨false, size, Offset.valid_positive size⟩
  else ⟨negative, size, Offset.valid_nonzero zero negative⟩

theorem Offset.ofParts_self (o : Offset) : Offset.ofParts o.negative o.size = o := by
  obtain ⟨negative, size, valid⟩ := o
  unfold Offset.ofParts
  by_cases zero : size.IsZero
  · rw [dif_pos zero]
    cases negative with
    | true => exact absurd zero (valid rfl)
    | false => rfl
  · rw [dif_neg zero]

def secondsText (t : Time) : List Char :=
  if t.second = 0 ∧ t.microsecond = 0 then []
  else ':' :: padded 2 t.second ++ fractionText t.microsecond

def readSeconds : List Char → Option (Nat × Nat × List Char)
  | ':' :: text => do
    let (second, text) ← number 2 text
    let (microsecond, text) ← readFraction text
    pure (second, microsecond, text)
  | text => some (0, 0, text)

theorem readSeconds_secondsText (t : Time) :
    readSeconds (secondsText t) = some (t.second, t.microsecond, []) := by
  obtain ⟨-, -, seconds, micros⟩ := t.valid
  unfold secondsText
  by_cases none : t.second = 0 ∧ t.microsecond = 0
  · rw [if_pos none, none.1, none.2]
    rfl
  · have fraction := readFraction_fractionText micros (show Stops [] from nofun)
    rw [List.append_nil] at fraction
    rw [if_neg none, List.cons_append]
    simp only [readSeconds, bind, Option.bind,
      number_padded (show t.second < 10 ^ 2 by omega) (by decide), fraction]
    rfl

/-- The offset as `isoformat` writes it, nothing for a time without one. -/
def offsetText : Option Offset → List Char
  | none => []
  | some o => (if o.negative then '-' else '+') :: padded 2 o.size.hour ++
      ':' :: padded 2 o.size.minute ++ secondsText o.size

def readSize (text : List Char) : Option Time := do
  let (hour, text) ← number 2 text
  let text ← expect ':' text
  let (minute, text) ← number 2 text
  let (second, microsecond, text) ← readSeconds text
  if text = [] then Time.ofNumbers hour minute second microsecond else none

def readOffset : List Char → Option (Option Offset)
  | [] => some none
  | sign :: text =>
    if sign = '+' ∨ sign = '-' then
      (readSize text).map fun size => some (Offset.ofParts (sign = '-') size)
    else none

theorem readOffset_offsetText (o : Option Offset) : readOffset (offsetText o) = some o := by
  cases o with
  | none => rfl
  | some o =>
    obtain ⟨hours, minutes, -, -⟩ := o.size.valid
    have size : readSize (padded 2 o.size.hour ++ ':' :: padded 2 o.size.minute ++
        secondsText o.size) = some o.size := by
      simp only [List.append_assoc, List.cons_append, readSize, bind, Option.bind,
        number_padded (show o.size.hour < 10 ^ 2 by omega) (by decide),
        number_padded (show o.size.minute < 10 ^ 2 by omega) (by decide), expect_cons,
        readSeconds_secondsText, if_pos, o.size.ofNumbers_self]
    have whole := o.ofParts_self
    cases sign : o.negative with
    | true =>
      rw [sign] at whole
      simp only [offsetText, sign, if_true, List.cons_append, readOffset, or_true, size,
        Option.map_some, decide_true, whole]
    | false =>
      rw [sign] at whole
      have plus : decide ('+' = '-') = false := rfl
      simp only [offsetText, sign, Bool.false_eq_true, if_false, List.cons_append, readOffset,
        true_or, if_true, size, Option.map_some, plus, whole]

private theorem stops_offsetText (o : Option Offset) : Stops (offsetText o) := by
  intro rest same
  cases o with
  | none => cases same
  | some o =>
    have first := (List.cons.inj same).1
    cases sign : o.negative with
    | true =>
      rw [sign] at first
      cases first
    | false =>
      rw [sign] at first
      cases first

/-- A date and a time, with the difference to UTC where it is known. -/
structure Moment where
  date : Date
  time : Time
  offset : Option Offset

/-- `datetime.isoformat(sep)`. -/
def momentText (separator : Char) (m : Moment) : List Char :=
  dateText m.date ++ separator :: timeText m.time ++ offsetText m.offset

/-- A text in the format `isoformat` writes. -/
def readMoment (text : List Char) : Option Moment := do
  let (date, text) ← readDate text
  let text ← expect 'T' text
  let (time, text) ← readTime text
  let offset ← readOffset text
  pure ⟨date, time, offset⟩

theorem readMoment_momentText (m : Moment) : readMoment (momentText 'T' m) = some m := by
  simp only [momentText, List.append_assoc, List.cons_append, readMoment, bind, Option.bind,
    readDate_dateText, expect_cons, readTime_timeText m.time (stops_offsetText m.offset),
    readOffset_offsetText]
  rfl

/-- A character of a text `isoformat` writes: a digit or one of its marks. -/
def Plain (separator : Char) (text : List Char) : Prop :=
  ∀ c ∈ text, c.isDigit = true ∨ c ∈ ['-', ':', '.', '+', separator]

private theorem Plain.append {separator : Char} {a b : List Char} (left : Plain separator a)
    (right : Plain separator b) : Plain separator (a ++ b) := fun c member =>
  (List.mem_append.mp member).elim (left c) (right c)

private theorem Plain.cons {separator c : Char} {a : List Char}
    (mark : c ∈ ['-', ':', '.', '+', separator]) (rest : Plain separator a) :
    Plain separator (c :: a) := fun x member =>
  (List.mem_cons.mp member).elim (fun same => .inr (same ▸ mark)) (rest x)

private theorem plain_padded (separator : Char) (width n : Nat) :
    Plain separator (padded width n) := fun c member => .inl (digital_padded width n c member)

private theorem plain_fractionText (separator : Char) (n : Nat) :
    Plain separator (fractionText n) := by
  unfold fractionText
  split
  · exact nofun
  · exact .cons (by simp) (plain_padded separator 6 n)

theorem plain_dateText (separator : Char) (d : Date) : Plain separator (dateText d) :=
  ((plain_padded separator 4 d.year).append
    (.cons (by simp) (plain_padded separator 2 d.month))).append
      (.cons (by simp) (plain_padded separator 2 d.day))

private theorem plain_timeText (separator : Char) (t : Time) : Plain separator (timeText t) :=
  (((plain_padded separator 2 t.hour).append
    (.cons (by simp) (plain_padded separator 2 t.minute))).append
      (.cons (by simp) (plain_padded separator 2 t.second))).append
        (plain_fractionText separator t.microsecond)

private theorem plain_offsetText (separator : Char) (o : Option Offset) :
    Plain separator (offsetText o) := by
  cases o with
  | none => exact nofun
  | some o =>
    have seconds : Plain separator (secondsText o.size) := by
      unfold secondsText
      split
      · exact nofun
      · exact .append (.cons (by simp) (plain_padded separator 2 o.size.second))
          (plain_fractionText separator o.size.microsecond)
    have hours := plain_padded separator 2 o.size.hour
    have minutes := plain_padded separator 2 o.size.minute
    have sign : (if o.negative then '-' else '+') ∈ ['-', ':', '.', '+', separator] := by
      split <;> simp
    exact .append (.append (.cons sign hours) (.cons (by simp) minutes)) seconds

theorem plain_momentText (separator : Char) (m : Moment) :
    Plain separator (momentText separator m) :=
  ((plain_dateText separator m.date).append
    (.cons (by simp) (plain_timeText separator m.time))).append
      (plain_offsetText separator m.offset)

end ProofRay.Lib.IsoFormat
