import Upsert.Number.Decimal

namespace Upsert

def Numeric.limit : Nat := 79228162514264337593543950336

/-- `coefficient / 10 ^ scale`. -/
structure Numeric where
  coefficient : Int
  scale : Nat
  natAbs_lt : coefficient.natAbs < Numeric.limit
  scale_le : scale ≤ 28

namespace Numeric

def maxScale : Nat := 28

def of? (coefficient : Int) (scale : Nat) : Option Numeric :=
  if h : coefficient.natAbs < limit ∧ scale ≤ 28 then some ⟨coefficient, scale, h.1, h.2⟩ else none

def toDecimal (n : Numeric) : Decimal := ⟨n.coefficient, n.scale⟩

def roundAway (n : Int) (den : Nat) : Int := n.sign * roundHalfUp n.natAbs den

/-- The number with `scale` places: rounded, or with zeros added as far as the bits allow. -/
def rescaled? (n : Int) (scale : Nat) : Nat → Option Numeric
  | target =>
    if target ≤ scale then of? (roundAway n (pow10 (scale - target))) target
    else widen n scale (target - scale)
where
  widen (n : Int) (scale : Nat) : Nat → Option Numeric
    | 0 => of? n scale
    | more + 1 => if (n * 10).natAbs < limit then widen (n * 10) (scale + 1) more else of? n scale

structure Scan where
  negative : Bool
  mantissa : Nat := 0
  scale : Nat := 0
  point : Bool := false
  any : Bool := false

def Scan.result? (s : Scan) : Option Numeric :=
  if s.any then of? (if s.negative then -s.mantissa else s.mantissa) s.scale else none

/-- Ends the reading at a digit for which there is no room: it rounds what was read, and nothing behind
it is looked at. -/
def Scan.rounded? (s : Scan) (c : Char) : Option Numeric := do
  let d ← if c = '_' ∨ c = '.' ∧ s.point then some 0 else Text.digit? c
  let up : Scan := { s with mantissa := s.mantissa + 1 }
  let shorter : Scan := { s with mantissa := (s.mantissa + 5) / 10, scale := s.scale - 1 }
  if d < 5 then s.result?
  else if up.mantissa < limit then up.result?
  else if s.scale = 0 then none
  else shorter.result?

def Scan.run? (s : Scan) : List Char → Option Numeric
  | [] => s.result?
  | c :: cs =>
    if s.point && maxScale ≤ s.scale then s.rounded? c
    else
      match Text.digit? c with
      | some d =>
        let m := s.mantissa * 10 + d
        if limit ≤ m then if s.point then s.rounded? c else none
        else
          run? { s with mantissa := m, scale := if s.point then s.scale + 1 else 0, any := true } cs
      | none =>
        if c = '.' ∧ !s.point then run? { s with point := true } cs
        else if c = '_' ∧ s.any then run? s cs
        else none

def readPlain? : List Char → Option Numeric
  | '-' :: cs => Scan.run? { negative := true } cs
  | '+' :: cs => Scan.run? { negative := false } cs
  | cs => Scan.run? { negative := false } cs

def raised? (n : Numeric) (k : Nat) : Option Numeric :=
  if k ≤ n.scale then of? n.coefficient (n.scale - k)
  else if maxScale < k then none
  else of? (n.coefficient * pow10 (k - n.scale)) 0

def lowered? (n : Numeric) (k : Nat) : Option Numeric := do
  guard (k ≤ maxScale)
  if n.scale + k ≤ maxScale then of? n.coefficient (n.scale + k)
  else
    let r ← rescaled? n.coefficient n.scale (maxScale - k)
    of? r.coefficient maxScale

def readUnsigned? (cs : List Char) : Option Nat :=
  (Text.readInteger 0 (UInt32.size - 1) (String.ofList cs)).toOption.map Int.toNat

def readScientific? (cs : List Char) : Option Numeric := do
  let base ← readPlain? (cs.takeWhile fun c ↦ !Decimal.isExponentMark c)
  match (cs.dropWhile fun c ↦ !Decimal.isExponentMark c).drop 1 with
  | '-' :: rest => base.lowered? (← readUnsigned? rest)
  | rest => base.raised? (← readUnsigned? rest)

/-- Places past the twenty-eighth, or past what 96 bits hold, are rounded; a whole part too long is
refused. -/
def read? (s : String) : Option Numeric :=
  readPlain? s.toList <|> readScientific? s.toList

def ofInt64 (n : Int64) : Numeric :=
  ⟨n.toInt, 0, by have := n.le_toInt; have := n.toInt_lt; unfold limit; omega, by omega⟩

end Numeric

end Upsert
