import Upsert.Calendar.Date

namespace Upsert

/-- Seconds from 1970-01-01 00:00:00, and nanoseconds behind them. A count of these from a thousand million up lies in
a leap second. -/
structure Moment where
  seconds : Int
  nanos : Nat
  min_le : Date.minDays * 86400 ≤ seconds
  lt_max : seconds < (Date.maxDays + 1) * 86400
  nanos_lt : nanos < 2000000000
  deriving DecidableEq

namespace Moment

def of? (seconds : Int) (nanos : Nat) : Option Moment :=
  if h : Date.minDays * 86400 ≤ seconds ∧ seconds < (Date.maxDays + 1) * 86400 ∧ nanos < 2000000000 then
    some ⟨seconds, nanos, h.1, h.2.1, h.2.2⟩
  else none

def days (t : Moment) : Int := t.seconds / 86400

def date (t : Moment) : Date :=
  ⟨t.days, by have := t.min_le; unfold days; omega, by have := t.lt_max; unfold days; omega⟩

def secondOfDay (t : Moment) : Nat := (t.seconds % 86400).toNat

def toMicroseconds (t : Moment) : Moment :=
  { t with nanos := t.nanos - t.nanos % 1000, nanos_lt := by have := t.nanos_lt; omega }

/-- A fraction of a second in the fewest of no, three, six or nine places. -/
def fractionText (nanos : Nat) : String :=
  if nanos = 0 then ""
  else if nanos % 1000000 = 0 then "." ++ Text.padded 3 (toString (nanos / 1000000))
  else if nanos % 1000 = 0 then "." ++ Text.padded 6 (toString (nanos / 1000))
  else "." ++ Text.padded 9 (toString nanos)

/-- A leap second is second 60 of its minute. -/
def timeText (t : Moment) : String :=
  let s := t.secondOfDay
  let leap := t.nanos / 1000000000
  Text.padded 2 (toString (s / 3600)) ++ ":" ++ Text.padded 2 (toString (s / 60 % 60)) ++ ":" ++
    Text.padded 2 (toString (s % 60 + leap)) ++ fractionText (t.nanos % 1000000000)

def text (between : String) (t : Moment) : String := t.date.text ++ between ++ t.timeText

end Moment

end Upsert
