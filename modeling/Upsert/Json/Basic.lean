import Upsert.Number.Shortest
import Upsert.Text.Dictionary

namespace Upsert

/-- Whole numbers and floating-point numbers are never equal. What is no number, or infinite, is not in a
document. -/
inductive JsonNumber
  | int (n : Int)
  | float (x : Binary64) (finite : x.isFinite)
  deriving DecidableEq

inductive Json
  | null
  | boolean (b : Bool)
  | number (n : JsonNumber)
  | string (s : String)
  | array (items : List Json)
  | object (members : List (String × Json))

namespace JsonNumber

def ofFloat? (x : Binary64) : Option JsonNumber := if h : x.isFinite then some (.float x h) else none

/-- Equality of numbers, under which zero has one sign. -/
def numEq : JsonNumber → JsonNumber → Bool
  | .int m, .int n => m == n
  | .float x _, .float y _ => x.numEq y
  | _, _ => false

def text : JsonNumber → String
  | .int n => toString n
  | .float x _ => x.jsonText

def toInt64? : JsonNumber → Option Int64
  | .int n => if Int64.minValue.toInt ≤ n ∧ n ≤ Int64.maxValue.toInt then some (Int64.ofInt n) else none
  | .float _ _ => none

def toBinary64 : JsonNumber → Binary64
  | .int n => .ofInt n
  | .float x _ => x

end JsonNumber

namespace Json

mutual

def eq : Json → Json → Bool
  | .null, .null => true
  | .boolean a, .boolean b => a == b
  | .number m, .number n => m.numEq n
  | .string s, .string t => s == t
  | .array xs, .array ys => eqItems xs ys
  | .object ms, .object ns => eqMembers ms ns
  | _, _ => false

def eqItems : List Json → List Json → Bool
  | [], [] => true
  | x :: xs, y :: ys => eq x y && eqItems xs ys
  | _, _ => false

def eqMembers : List (String × Json) → List (String × Json) → Bool
  | [], [] => true
  | (k, x) :: ms, (l, y) :: ns => k == l && eq x y && eqMembers ms ns
  | _, _ => false

end

/-- A character between quotes: short escapes where JSON has them, four hexadecimal digits for other
control characters, and all else as it is. -/
def escaped (c : Char) : List Char :=
  if c = '"' then ['\\', '"']
  else if c = '\\' then ['\\', '\\']
  else if c = '\x08' then ['\\', 'b']
  else if c = '\x0c' then ['\\', 'f']
  else if c = '\n' then ['\\', 'n']
  else if c = '\r' then ['\\', 'r']
  else if c = '\t' then ['\\', 't']
  else if c.toNat < 0x20 then
    ['\\', 'u', '0', '0'] ++ Text.hexDigits [c.toNat / 16, c.toNat % 16]
  else [c]

def stringText (s : String) : String :=
  String.ofList ('"' :: s.toList.flatMap escaped ++ ['"'])

mutual

def text : Json → String
  | .null => "null"
  | .boolean b => toString b
  | .number n => n.text
  | .string s => stringText s
  | .array xs => "[" ++ textOfItems xs ++ "]"
  | .object ms => "\x7b" ++ textOfMembers ms ++ "\x7d"

def textOfItems : List Json → String
  | [] => ""
  | [x] => x.text
  | x :: xs => x.text ++ "," ++ textOfItems xs

def textOfMembers : List (String × Json) → String
  | [] => ""
  | [(k, x)] => stringText k ++ ":" ++ x.text
  | (k, x) :: ms => stringText k ++ ":" ++ x.text ++ "," ++ textOfMembers ms

end

def margin (level : Nat) : String := "\n" ++ String.ofList (List.replicate (2 * level) ' ')

mutual

def indented (level : Nat) : Json → String
  | .array [] => "[]"
  | .array xs => "[" ++ indentedItems (level + 1) xs ++ margin level ++ "]"
  | .object [] => "\x7b\x7d"
  | .object ms => "\x7b" ++ indentedMembers (level + 1) ms ++ margin level ++ "\x7d"
  | .null => "null"
  | .boolean b => toString b
  | .number n => n.text
  | .string s => stringText s

def indentedItems (level : Nat) : List Json → String
  | [] => ""
  | [x] => margin level ++ x.indented level
  | x :: xs => margin level ++ x.indented level ++ "," ++ indentedItems level xs

def indentedMembers (level : Nat) : List (String × Json) → String
  | [] => ""
  | [(k, x)] => margin level ++ stringText k ++ ": " ++ x.indented level
  | (k, x) :: ms =>
    margin level ++ stringText k ++ ": " ++ x.indented level ++ "," ++ indentedMembers level ms

end

/-- An object from members in any order, of which the last of one name counts. -/
def ofMembers (members : List (String × Json)) : Json :=
  .object (members.foldl (fun ms e ↦ insertEntry e.1 e.2 ms) [])

def int64 (n : Int64) : Json := .number (.int n.toInt)

end Json

end Upsert
