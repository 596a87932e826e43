/- The proleptic Gregorian calendar: dates, and the days they are counted by from the first day of
   the year 1. -/

namespace ProofRay.Lib.Gregorian

def isLeap (year : Nat) : Bool := year % 4 = 0 && (year % 100 ≠ 0 || year % 400 = 0)

def commonDaysBefore : Nat → Nat
  | 1 => 0
  | 2 => 31
  | 3 => 59
  | 4 => 90
  | 5 => 120
  | 6 => 151
  | 7 => 181
  | 8 => 212
  | 9 => 243
  | 10 => 273
  | 11 => 304
  | 12 => 334
  | _ => 0

def daysBeforeMonth (year month : Nat) : Nat :=
  commonDaysBefore month + if 2 < month ∧ isLeap year then 1 else 0

def daysInMonth (year month : Nat) : Nat :=
  if month = 2 then (if isLeap year then 29 else 28)
  else if month = 4 ∨ month = 6 ∨ month = 9 ∨ month = 11 then 30
  else 31

def daysBeforeYear (year : Nat) : Nat :=
  (year - 1) * 365 + (year - 1) / 4 - (year - 1) / 100 + (year - 1) / 400

def maxYear : Nat := 9999

/-- A date of the years 1 to 9999. -/
structure Date where
  year : Nat
  month : Nat
  day : Nat
  valid : (1 ≤ year ∧ year ≤ maxYear) ∧ (1 ≤ month ∧ month ≤ 12) ∧
    1 ≤ day ∧ day ≤ daysInMonth year month

def Date.ofNumbers (year month day : Nat) : Option Date :=
  if valid : (1 ≤ year ∧ year ≤ maxYear) ∧ (1 ≤ month ∧ month ≤ 12) ∧
      1 ≤ day ∧ day ≤ daysInMonth year month then some ⟨year, month, day, valid⟩
  else none

def Date.ordinal (d : Date) : Nat := daysBeforeYear d.year + daysBeforeMonth d.year d.month + d.day

end ProofRay.Lib.Gregorian
