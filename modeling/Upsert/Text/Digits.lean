namespace Upsert.Text

def digit? (c : Char) : Option Nat :=
  if '0' ≤ c ∧ c ≤ '9' then some (c.toNat - '0'.toNat) else none

def isDigit (c : Char) : Bool := (digit? c).isSome

def ofDigits (cs : List Char) : Nat :=
  cs.foldl (fun n c ↦ n * 10 + (digit? c).getD 0) 0

def hexDigit? (c : Char) : Option Nat :=
  if '0' ≤ c ∧ c ≤ '9' then some (c.toNat - '0'.toNat)
  else if 'a' ≤ c ∧ c ≤ 'f' then some (c.toNat - 'a'.toNat + 10)
  else if 'A' ≤ c ∧ c ≤ 'F' then some (c.toNat - 'A'.toNat + 10)
  else none

def hexDigits : List Nat → List Char := List.map Nat.digitChar

def hex (octets : List UInt8) : String :=
  String.ofList (octets.flatMap fun o ↦ hexDigits [o.toNat / 16, o.toNat % 16])

def octetsOfHex? : List Char → Option (List UInt8)
  | [] => some []
  | [_] => none
  | a :: b :: rest => do
    return UInt8.ofNat ((← hexDigit? a) * 16 + (← hexDigit? b)) :: (← octetsOfHex? rest)

def padded (width : Nat) (text : String) : String :=
  String.ofList (List.replicate (width - text.length) '0') ++ text

inductive IntegerFault
  | empty
  | digit
  | tooLarge
  | tooSmall
  deriving DecidableEq

def IntegerFault.message : IntegerFault → String
  | .empty => "cannot parse integer from empty string"
  | .digit => "invalid digit found in string"
  | .tooLarge => "number too large to fit in target type"
  | .tooSmall => "number too small to fit in target type"

/-- Reads digits behind `acc`. The first character that is no digit, or that leaves the bounds, ends
the reading. -/
def readDigits (least greatest : Int) (negative : Bool) : Int → List Char → Except IntegerFault Int
  | acc, [] => .ok acc
  | acc, c :: cs =>
    match digit? c with
    | none => .error .digit
    | some d =>
      let next := if negative then acc * 10 - d else acc * 10 + d
      if greatest < next then .error .tooLarge
      else if next < least then .error .tooSmall
      else readDigits least greatest negative next cs

/-- A whole number with an optional sign. Where no negative number is in bounds, `-` is no sign. -/
def readInteger (least greatest : Int) (s : String) : Except IntegerFault Int :=
  match s.toList with
  | [] => .error .empty
  | ['+'] | ['-'] => .error .digit
  | '+' :: cs => readDigits least greatest false 0 cs
  | '-' :: cs =>
    if least < 0 then readDigits least greatest true 0 cs else .error .digit
  | cs => readDigits least greatest false 0 cs

def readInt64 (s : String) : Except IntegerFault Int64 :=
  Int64.ofInt <$> readInteger Int64.minValue.toInt Int64.maxValue.toInt s

end Upsert.Text
