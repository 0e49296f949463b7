import Upsert.Number.Binary
import Upsert.Text.Digits

namespace Upsert

/-- `digits * 10 ^ exponent`. -/
structure ShortDecimal where
  digits : Nat
  exponent : Int
  deriving DecidableEq

/-- The numbers around a pattern that round to it, as numerators over one denominator. -/
structure RoundingInterval where
  low : Nat
  value : Nat
  high : Nat
  den : Nat
  closed : Bool

namespace RoundingInterval

/-- Half way to either neighbour. Below a power of two the neighbour is nearer by half. -/
def ofParts (f : FloatFormat) (m : Nat) (e : Int) : RoundingInterval :=
  let below := if m = pow2 (f.precision - 1) ∧ f.minExponent < e then 1 else 2
  let unit : Int := e - 2
  let up := if 0 ≤ unit then pow2 unit.toNat else 1
  { low := (4 * m - below) * up
    value := 4 * m * up
    high := (4 * m + 2) * up
    den := if 0 ≤ unit then 1 else pow2 (-unit).toNat
    closed := m % 2 == 0 }

def contains (r : RoundingInterval) (d : Nat) (k : Int) : Bool :=
  let x := if 0 ≤ k then d * pow10 k.toNat * r.den else d * r.den
  let up := if 0 ≤ k then 1 else pow10 (-k).toNat
  let low := r.low * up
  let high := r.high * up
  if r.closed then low ≤ x && x ≤ high else low < x && x < high

/-- The two numbers around the value on the grid `10 ^ k`: the one at or below it, and whether the
one above is nearer, counting a half to the even one. -/
def neighbours (r : RoundingInterval) (k : Int) : Nat × Bool :=
  let num := if 0 ≤ k then r.value else r.value * pow10 (-k).toNat
  let den := if 0 ≤ k then r.den * pow10 k.toNat else r.den
  (num / den, roundHalfEven num den != num / den)

def onGrid? (r : RoundingInterval) (k : Int) : Option Nat :=
  let (d, upper) := r.neighbours k
  let below := r.contains d k
  let above := r.contains (d + 1) k
  if below && above then some (if upper then d + 1 else d)
  else if below then some d
  else if above then some (d + 1)
  else none

def decade (r : RoundingInterval) : Int :=
  ((Nat.toDigits 10 (r.value * pow10 400 / r.den)).length : Int) - 401

def search (r : RoundingInterval) : Nat → Int → ShortDecimal
  | 0, k => ⟨(r.neighbours k).1, k⟩
  | tries + 1, k =>
    match r.onGrid? k with
    | some d => ⟨d, k⟩
    | none => search r tries (k - 1)

end RoundingInterval

def ShortDecimal.stripped : Nat → ShortDecimal → ShortDecimal
  | 0, d => d
  | fuel + 1, d =>
    if d.digits ≠ 0 ∧ d.digits % 10 = 0 then stripped fuel ⟨d.digits / 10, d.exponent + 1⟩ else d

namespace Binary64

/-- The decimal of fewest digits that rounds to a finite `x`, the nearest of these, less its sign. -/
def shortest (x : Binary64) : ShortDecimal :=
  if x.isZero then ⟨0, 0⟩
  else
    let r := RoundingInterval.ofParts FloatFormat.binary64 x.parts.1 x.parts.2
    ShortDecimal.stripped 17 (r.search 17 r.decade)

end Binary64

def plainDecimal (digits : List Char) (exponent : Int) : List Char :=
  if 0 ≤ exponent then digits ++ List.replicate exponent.toNat '0'
  else
    let places := (-exponent).toNat
    if digits.length ≤ places then
      '0' :: '.' :: (List.replicate (places - digits.length) '0' ++ digits)
    else
      digits.take (digits.length - places) ++ '.' :: digits.drop (digits.length - places)

def pointAfterFirst : List Char → List Char
  | d :: e :: rest => d :: '.' :: e :: rest
  | ds => ds

namespace Binary64

def signText (x : Binary64) : String := if x.isNegative then "-" else ""

/-- The plain text of a number: shortest digits, never an exponent, no point in a whole number. -/
def text (x : Binary64) : String :=
  if x.isNaN then "NaN"
  else if x.isInfinite then x.signText ++ "inf"
  else
    let d := x.shortest
    x.signText ++ String.ofList (plainDecimal (Nat.toDigits 10 d.digits) d.exponent)

/-- The text of a finite number in JSON: an exponent from `1e16` up and below `1e-5`, else a point and
at least one digit behind it. -/
def jsonText (x : Binary64) : String :=
  let d := x.shortest
  let digits := Nat.toDigits 10 d.digits
  let first : Int := digits.length + d.exponent - 1
  x.signText ++
    if x.isZero then "0.0"
    else if first < -5 then String.ofList (pointAfterFirst digits) ++ s!"e{first}"
    else if 16 ≤ first then String.ofList (pointAfterFirst digits) ++ s!"e+{first}"
    else String.ofList (plainDecimal digits d.exponent) ++ if 0 ≤ d.exponent then ".0" else ""

end Binary64

end Upsert
