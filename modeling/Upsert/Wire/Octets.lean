import Upsert.Number.Binary

namespace Upsert

abbrev Octets := List UInt8

namespace Octets

/-- The two's complement of `n` in `width` octets. -/
def ofInt : Nat → Int → Octets
  | 0, _ => []
  | width + 1, n => ofInt width (n / 256) ++ [UInt8.ofNat (n % 256).toNat]

def toNat (os : Octets) : Nat := os.foldl (fun n o ↦ n * 256 + o.toNat) 0

def toInt (os : Octets) : Int :=
  if 2 * toNat os < pow2 (8 * os.length) then toNat os else toNat os - pow2 (8 * os.length)

def split? (width : Nat) (os : Octets) : Option (Octets × Octets) :=
  if width ≤ os.length then some (os.take width, os.drop width) else none

def takeInt? (width : Nat) (os : Octets) : Option (Int × Octets) :=
  (split? width os).map fun (front, rest) ↦ (toInt front, rest)

def takeNat? (width : Nat) (os : Octets) : Option (Nat × Octets) :=
  (split? width os).map fun (front, rest) ↦ (toNat front, rest)

end Octets

end Upsert
