namespace Upsert

def pow2 (n : Nat) : Nat := Nat.pow 2 n

def pow10 (n : Nat) : Nat := Nat.pow 10 n

/-- A quotient rounded to the nearest whole number, to the even one of two equally near. -/
def roundHalfEven (num den : Nat) : Nat :=
  let q := num / den
  let r := num % den
  if 2 * r < den then q
  else if den < 2 * r then q + 1
  else q + q % 2

def roundHalfUp (num den : Nat) : Nat := (2 * num + den) / (2 * den)

/-- The greatest `k` with `2 ^ k` at most `num / den`. -/
def floorLog2 (num den : Nat) : Int :=
  let k : Int := num.log2 - den.log2
  let reached := if 0 ≤ k then den * pow2 k.toNat ≤ num else den ≤ num * pow2 (-k).toNat
  if reached then k else k - 1

/-- An interchange format: `precision` bits of significand, of which the first is not stored, and
`width` bits of exponent. -/
structure FloatFormat where
  precision : Nat
  width : Nat

namespace FloatFormat

variable (f : FloatFormat)

def binary64 : FloatFormat := ⟨53, 11⟩
def binary32 : FloatFormat := ⟨24, 8⟩

def minExponent : Int := 3 - pow2 (f.width - 1) - f.precision

def infinity : Nat := (pow2 f.width - 1) * pow2 (f.precision - 1)

def quietBit : Nat := pow2 (f.precision - 2)

/-- The pattern nearest to `num / den`, without a sign. Adding the significand to the shifted exponent
carries into the exponent by itself, both from the subnormal numbers and when rounding reaches the
next power of two. -/
def ofRatio (num den : Nat) : Nat :=
  if num = 0 then 0
  else
    let e := max (floorLog2 num den - (f.precision - 1)) f.minExponent
    let m := if 0 ≤ e then roundHalfEven num (den * pow2 e.toNat)
      else roundHalfEven (num * pow2 (-e).toNat) den
    min f.infinity ((e - f.minExponent).toNat * pow2 (f.precision - 1) + m)

def parts (magnitude : Nat) : Nat × Int :=
  let hidden := pow2 (f.precision - 1)
  let exponent := magnitude / hidden
  if exponent = 0 then (magnitude, f.minExponent)
  else (hidden + magnitude % hidden, f.minExponent + exponent - 1)

def ofScaled (m : Nat) (e : Int) : Nat :=
  if 0 ≤ e then f.ofRatio (m * pow2 e.toNat) 1 else f.ofRatio m (pow2 (-e).toNat)

end FloatFormat

structure Binary64 where
  bits : UInt64
  deriving DecidableEq

namespace Binary64

def ofMagnitude (negative : Bool) (magnitude : Nat) : Binary64 :=
  ⟨UInt64.ofNat (magnitude + if negative then pow2 63 else 0)⟩

def isNegative (x : Binary64) : Bool := pow2 63 ≤ x.bits.toNat

def magnitude (x : Binary64) : Nat := x.bits.toNat % pow2 63

def isZero (x : Binary64) : Bool := x.magnitude == 0
def isFinite (x : Binary64) : Bool := x.magnitude < FloatFormat.binary64.infinity
def isInfinite (x : Binary64) : Bool := x.magnitude == FloatFormat.binary64.infinity
def isNaN (x : Binary64) : Bool := FloatFormat.binary64.infinity < x.magnitude

def zero : Binary64 := ⟨0⟩
def nan : Binary64 := ofMagnitude false (FloatFormat.binary64.infinity + FloatFormat.binary64.quietBit)
def infinity (negative : Bool) : Binary64 := ofMagnitude negative FloatFormat.binary64.infinity

def parts (x : Binary64) : Nat × Int := FloatFormat.binary64.parts x.magnitude

def ofRatio (negative : Bool) (num den : Nat) : Binary64 :=
  ofMagnitude negative (FloatFormat.binary64.ofRatio num den)

def ofInt (n : Int) : Binary64 := ofRatio (n < 0) n.natAbs 1

def negate (x : Binary64) : Binary64 := ofMagnitude (!x.isNegative) x.magnitude

/-- Equality of numbers: zero has two patterns, and a NaN equals nothing. -/
def numEq (x y : Binary64) : Bool :=
  !x.isNaN && !y.isNaN && (x.bits == y.bits || x.isZero && y.isZero)

def mul (x y : Binary64) : Binary64 :=
  let negative := x.isNegative != y.isNegative
  if x.isNaN || y.isNaN || x.isInfinite && y.isZero || x.isZero && y.isInfinite then nan
  else if x.isInfinite || y.isInfinite then infinity negative
  else
    let (m, e) := x.parts
    let (n, d) := y.parts
    ofMagnitude negative (FloatFormat.binary64.ofScaled (m * n) (e + d))

def div (x y : Binary64) : Binary64 :=
  let negative := x.isNegative != y.isNegative
  if x.isNaN || y.isNaN || x.isInfinite && y.isInfinite || x.isZero && y.isZero then nan
  else if x.isInfinite || y.isZero then infinity negative
  else if y.isInfinite || x.isZero then ofMagnitude negative 0
  else
    let (m, e) := x.parts
    let (n, d) := y.parts
    let k := e - d
    ofMagnitude negative <|
      if 0 ≤ k then FloatFormat.binary64.ofRatio (m * pow2 k.toNat) n
      else FloatFormat.binary64.ofRatio m (n * pow2 (-k).toNat)

def powerOfTen (k : Nat) : Binary64 := ofRatio false (pow10 k) 1

end Binary64

structure Binary32 where
  bits : UInt32
  deriving DecidableEq

namespace Binary32

def magnitude (x : Binary32) : Nat := x.bits.toNat % pow2 31
def isNegative (x : Binary32) : Bool := pow2 31 ≤ x.bits.toNat

def ofMagnitude (negative : Bool) (magnitude : Nat) : Binary32 :=
  ⟨UInt32.ofNat (magnitude + if negative then pow2 31 else 0)⟩

/-- The nearest number of single precision. A NaN keeps the leading bits of its payload. -/
def ofBinary64 (x : Binary64) : Binary32 :=
  let f := FloatFormat.binary32
  ofMagnitude x.isNegative <|
    if x.isNaN then
      let payload := x.magnitude / pow2 29 % pow2 22
      f.infinity + f.quietBit + payload
    else if x.isInfinite then f.infinity
    else f.ofScaled x.parts.1 x.parts.2

def ofInt (n : Int) : Binary32 :=
  ofMagnitude (n < 0) (FloatFormat.binary32.ofRatio n.natAbs 1)

def toBinary64 (x : Binary32) : Binary64 :=
  let f := FloatFormat.binary32
  let g := FloatFormat.binary64
  Binary64.ofMagnitude x.isNegative <|
    if f.infinity < x.magnitude then
      let payload := x.magnitude % pow2 22 * pow2 29
      g.infinity + g.quietBit + payload
    else if x.magnitude = f.infinity then g.infinity
    else g.ofScaled (f.parts x.magnitude).1 (f.parts x.magnitude).2

end Binary32

end Upsert
