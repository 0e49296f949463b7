import Upsert.Number.Binary
import Upsert.Text.Digits

namespace Upsert

inductive FloatFault
  | empty
  | malformed
  deriving DecidableEq

def FloatFault.message : FloatFault → String
  | .empty => "cannot parse float from empty string"
  | .malformed => "invalid float literal"

/-- The number nearest to `digits * 10 ^ exponent`. Far outside the range the answer is known without
the power. -/
def Binary64.ofDecimal (negative : Bool) (digits : Nat) (exponent : Int) : Binary64 :=
  let first : Int := (Nat.toDigits 10 digits).length + exponent
  if digits = 0 ∨ first < -330 then ofMagnitude negative 0
  else if 320 < first then infinity negative
  else if 0 ≤ exponent then ofRatio negative (digits * pow10 exponent.toNat) 1
  else ofRatio negative digits (pow10 (-exponent).toNat)

def readExponent? : List Char → Option Int
  | '+' :: cs => if cs ≠ [] ∧ cs.all Text.isDigit then some (Text.ofDigits cs) else none
  | '-' :: cs => if cs ≠ [] ∧ cs.all Text.isDigit then some (-Text.ofDigits cs) else none
  | cs => if cs ≠ [] ∧ cs.all Text.isDigit then some (Text.ofDigits cs) else none

def readDecimal? (cs : List Char) : Option (Nat × Int) := do
  let whole := cs.takeWhile Text.isDigit
  let rest := cs.dropWhile Text.isDigit
  let (fraction, rest) := match rest with
    | '.' :: rest => (rest.takeWhile Text.isDigit, rest.dropWhile Text.isDigit)
    | rest => ([], rest)
  guard (whole ++ fraction ≠ [])
  let exponent ← match rest with
    | [] => some 0
    | c :: rest => if c = 'e' ∨ c = 'E' then readExponent? rest else none
  return (Text.ofDigits (whole ++ fraction), exponent - fraction.length)

def readMagnitude? (negative : Bool) (cs : List Char) : Option Binary64 :=
  let name := String.ofList (cs.map Char.toLower)
  if name = "inf" ∨ name = "infinity" then some (.infinity negative)
  else if name = "nan" then some (if negative then Binary64.nan.negate else .nan)
  else (readDecimal? cs).map fun (digits, exponent) ↦ .ofDecimal negative digits exponent

/-- A decimal, or the name of an infinity or of no number, with an optional sign. -/
def Binary64.read (s : String) : Except FloatFault Binary64 :=
  let magnitude := match s.toList with
    | '-' :: cs => readMagnitude? true cs
    | '+' :: cs => readMagnitude? false cs
    | cs => readMagnitude? false cs
  if s.isEmpty then .error .empty
  else magnitude.elim (.error .malformed) .ok

end Upsert
