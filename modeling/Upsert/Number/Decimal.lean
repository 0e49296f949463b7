import Upsert.Number.Shortest
import Upsert.Number.Reading

namespace Upsert

/-- `digits / 10 ^ scale`. -/
structure Decimal where
  digits : Int
  scale : Int
  deriving DecidableEq

namespace Decimal

def ofInt (n : Int) : Decimal := ⟨n, 0⟩

/-- The spelling without zeros at the end of its digits, of which each number has one. -/
def normalized (d : Decimal) : Decimal :=
  if d.digits = 0 then ⟨0, 0⟩
  else
    let s := ShortDecimal.stripped (d.digits.natAbs.log2 + 1) ⟨d.digits.natAbs, -d.scale⟩
    ⟨d.digits.sign * s.digits, -s.exponent⟩

def numEq (a b : Decimal) : Bool := a.normalized == b.normalized

def signText (d : Decimal) : String := if d.digits < 0 then "-" else ""

/-- Plain text, unless more than five zeros would stand between the point and the first digit, or more
than fifteen would fill the places up to the point. -/
def text (d : Decimal) : String :=
  let ds := Nat.toDigits 10 d.digits.natAbs
  d.signText ++
    if d.digits = 0 then "0"
    else if (ds.length : Int) + 5 < d.scale then
      String.ofList (pointAfterFirst ds) ++ s!"E{(ds.length : Int) - 1 - d.scale}"
    else if d.scale < -15 then String.ofList ds ++ s!"e+{-d.scale}"
    else String.ofList (plainDecimal ds (-d.scale))

def readDigits? : List Char → Option Nat
  | [] => none
  | '_' :: _ => none
  | cs =>
    if cs.all fun c ↦ Text.isDigit c || c == '_' then some (Text.ofDigits (cs.filter Text.isDigit))
    else none

def readWhole? : List Char → Option Int
  | '-' :: cs => (readDigits? cs).map fun n ↦ -(n : Int)
  | '+' :: cs => (readDigits? cs).map Int.ofNat
  | cs => (readDigits? cs).map Int.ofNat

def readBase? (cs : List Char) : Option (Int × Nat) :=
  let whole := cs.takeWhile (· ≠ '.')
  let fraction := (cs.dropWhile (· ≠ '.')).drop 1
  (readWhole? (whole ++ fraction)).map (·, fraction.countP (· ≠ '_'))

def isExponentMark (c : Char) : Bool := c == 'e' || c == 'E'

/-- A decimal with at most one point and an optional exponent. The scale has to fit 64 bits. -/
def read? (s : String) : Option Decimal := do
  let cs := s.toList
  let base := cs.takeWhile fun c ↦ !isExponentMark c
  let exponent ← match cs.dropWhile fun c ↦ !isExponentMark c with
    | [] => some 0
    | _ :: rest => (Text.readInteger (-(pow2 127 : Int)) (pow2 127 - 1) (String.ofList rest)).toOption
  let (digits, places) ← readBase? base
  let scale := (places : Int) - exponent
  guard (Int64.minValue.toInt ≤ scale ∧ scale ≤ Int64.maxValue.toInt)
  return ⟨digits, scale⟩

def digitCount (d : Decimal) : Nat := (Nat.toDigits 10 d.digits.natAbs).length

def toInt64? (d : Decimal) : Option Int64 := do
  if d.digits = 0 ∨ (d.digitCount : Int) ≤ d.scale then return 0
  guard ((d.digitCount : Int) - d.scale ≤ 19)
  let n := if 0 ≤ d.scale then d.digits.tdiv (pow10 d.scale.toNat)
    else d.digits * pow10 (-d.scale).toNat
  guard (Int64.minValue.toInt ≤ n ∧ n ≤ Int64.maxValue.toInt)
  return Int64.ofInt n

end Decimal

def Binary64.power (x : Binary64) (acc : Binary64) : Nat → Nat → Binary64
  | 0, _ => acc
  | fuel + 1, n =>
    let acc := if n % 2 = 1 then acc.mul x else acc
    if n / 2 = 0 then acc else power (x.mul x) acc fuel (n / 2)

namespace Decimal

/-- The nearest number of double precision where there are places behind the point. Else the digits are
rounded first and then multiplied by a power of ten, rounding again. -/
def toBinary64 (d : Decimal) : Binary64 :=
  let negative := decide (d.digits < 0)
  if d.digits = 0 then .zero
  else if 0 ≤ d.scale then .ofDecimal negative d.digits.natAbs (-d.scale)
  else
    (Binary64.ofInt d.digits).mul
      (Binary64.power (.powerOfTen 1) (.powerOfTen 0) 64 (-d.scale).toNat)

def twosIn : Nat → Nat → Nat
  | 0, _ => 0
  | fuel + 1, m => if m % 2 = 0 then twosIn fuel (m / 2) + 1 else 0

/-- The very number that a pattern stands for, with as few places as that takes. -/
def ofBinary64 (x : Binary64) : Decimal :=
  let (m, e) := x.parts
  let sign : Int := if x.isNegative then -1 else 1
  if m = 0 then ⟨0, 0⟩
  else if 0 ≤ e then ⟨sign * (m * pow2 e.toNat : Nat), 0⟩
  else
    let twos := min (twosIn m.log2 m) (-e).toNat
    ⟨sign * (m / pow2 twos * Nat.pow 5 ((-e).toNat - twos) : Nat), (-e).toNat - twos⟩

end Decimal

end Upsert
