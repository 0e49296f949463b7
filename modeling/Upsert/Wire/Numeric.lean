import Upsert.Number.Numeric
import Upsert.Wire.Octets

namespace Upsert.Numeric

def groups : Nat → Nat → List Nat
  | 0, _ => []
  | fuel + 1, n => if n = 0 then [] else groups fuel (n / 10000) ++ [n % 10000]

def dropTrailingZeros (gs : List Nat) : List Nat := (gs.reverse.dropWhile (· == 0)).reverse

/-- Groups of a whole part are kept to the last. Behind them, groups of zeros at the end are left out;
without a whole part they stay. -/
def encode (n : Numeric) : Octets :=
  if n.coefficient = 0 then List.replicate 8 0
  else
    let places := (n.scale + 3) / 4
    let gs := groups 16 (n.coefficient.natAbs * pow10 (4 * places - n.scale))
    let weight : Int := gs.length - places - 1
    let whole := (weight + 1).toNat
    let sent := if weight < 0 then gs else gs.take whole ++ dropTrailingZeros (gs.drop whole)
    Octets.ofInt 2 sent.length ++ Octets.ofInt 2 weight ++
      Octets.ofInt 2 (if n.coefficient < 0 then 0x4000 else 0) ++ Octets.ofInt 2 n.scale ++
      sent.flatMap fun (g : Nat) ↦ Octets.ofInt 2 g

/-- A running sum, `m / 10 ^ scale`, brought back to 96 bits: digits that do not fit are rounded away, a
half to the even neighbour. -/
def fitted? (m : Nat) : Nat → Option (Nat × Nat)
  | 0 => if m < limit then some (m, 0) else none
  | scale + 1 =>
    if m < limit then some (m, scale + 1)
    else drop (scale + 1) (scale + 1)
where
  drop (scale : Nat) : Nat → Option (Nat × Nat)
    | 0 => none
    | left + 1 =>
      let m' := roundHalfEven m (pow10 (scale - left))
      if m' < limit then some (m', left) else drop scale left

def addScaled? (sum : Nat × Nat) (n scale : Nat) : Option (Nat × Nat) :=
  let s := max sum.2 scale
  fitted? (sum.1 * pow10 (s - sum.2) + n * pow10 (s - scale)) s

def wholeSum? (gs : List Nat) (missing : Nat) : Option Nat :=
  let n := gs.foldl (fun n g ↦ n * 10000 + g) 0
  if n = 0 then some 0
  else if 8 ≤ missing then none
  else if n * pow10 (4 * missing) < limit then some (n * pow10 (4 * missing)) else none

/-- Groups behind the point, of which the next ends at the place `place`. The group that ends at place 32
only rounds. -/
def fractionSum? (sum : Nat × Nat) : Nat → List Nat → Option (Nat × Nat)
  | _, [] => some sum
  | place, g :: gs => do
    let sum ←
      if place ≤ 28 then if g = 0 then some sum else addScaled? sum g place
      else if place = 32 ∧ 5000 ≤ g then addScaled? sum 1 28
      else some sum
    fractionSum? sum (place + 4) gs

def ofGroups? (negative : Bool) (weight : Int) (scale : Nat) (gs : List Nat) : Option Numeric := do
  let count := (weight + 1).toNat
  let whole ← wholeSum? (gs.take count) (count - gs.length)
  let skipped := (-(weight + 1)).toNat
  let (m, s) ← fractionSum? (whole, 0) (4 * (skipped + 1)) (gs.drop count)
  rescaled? (if negative then -(m : Int) else m) s (min scale maxScale)

end Upsert.Numeric
