import Upsert.Text.Digits

namespace Upsert

namespace Date

def isLeapYear (y : Int) : Bool := y % 4 == 0 && (y % 100 != 0 || y % 400 == 0)

def monthLength (y : Int) (m : Nat) : Nat :=
  if m = 2 then if isLeapYear y then 29 else 28
  else if m = 4 ∨ m = 6 ∨ m = 9 ∨ m = 11 then 30
  else 31

/-- Counts in eras of 400 years that begin in March, so that a leap day ends a year. -/
def daysOfCivil (y : Int) (m d : Nat) : Int :=
  let y := if m ≤ 2 then y - 1 else y
  let era := y / 400
  let yearOfEra := y % 400
  let dayOfYear : Int := (153 * ((m + 9) % 12) + 2) / 5 + d - 1
  era * 146097 + (yearOfEra * 365 + yearOfEra / 4 - yearOfEra / 100 + dayOfYear) - 719468

def civilOfDays (days : Int) : Int × Nat × Nat :=
  let z := days + 719468
  let era := z / 146097
  let day := (z % 146097).toNat
  let yearOfEra := (day - day / 1460 + day / 36524 - day / 146096) / 365
  let dayOfYear := day - (365 * yearOfEra + yearOfEra / 4 - yearOfEra / 100)
  let month := (5 * dayOfYear + 2) / 153
  let d := dayOfYear - (153 * month + 2) / 5 + 1
  let m := if month < 10 then month + 3 else month - 9
  let y := yearOfEra + era * 400
  (if m ≤ 2 then y + 1 else y, m, d)

def minDays : Int := -96465292

def maxDays : Int := 95026236

end Date

structure Date where
  days : Int
  min_le : Date.minDays ≤ days
  le_max : days ≤ Date.maxDays
  deriving DecidableEq

namespace Date

def ofDays? (days : Int) : Option Date :=
  if h : minDays ≤ days ∧ days ≤ maxDays then some ⟨days, h.1, h.2⟩ else none

def ofCivil? (y : Int) (m d : Nat) : Option Date := do
  guard (1 ≤ m ∧ m ≤ 12 ∧ 1 ≤ d ∧ d ≤ monthLength y m)
  ofDays? (daysOfCivil y m d)

def civil (d : Date) : Int × Nat × Nat := civilOfDays d.days

/-- Four digits, or a sign and at least four. -/
def yearText (y : Int) : String :=
  if 0 ≤ y ∧ y ≤ 9999 then Text.padded 4 (toString y.toNat)
  else (if y < 0 then "-" else "+") ++ Text.padded 4 (toString y.natAbs)

def text (d : Date) : String :=
  let (y, m, day) := d.civil
  yearText y ++ "-" ++ Text.padded 2 (toString m) ++ "-" ++ Text.padded 2 (toString day)

end Date

end Upsert
