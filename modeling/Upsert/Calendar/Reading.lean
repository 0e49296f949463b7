import Upsert.Calendar.Moment
import Upsert.Number.Binary
import Upsert.Text.Basic

namespace Upsert.Calendar

abbrev Step (α : Type) := List Char → Option (α × List Char)

def literal (c : Char) : Step Unit
  | d :: cs => if d = c then some ((), cs) else none
  | [] => none

def digits (least most : Nat) : Step Nat := fun cs ↦
  let ds := (cs.take most).takeWhile Text.isDigit
  if least ≤ ds.length then some (Text.ofDigits ds, cs.drop ds.length) else none

def allDigits : Step Nat := fun cs ↦ digits 1 cs.length cs

def year : Step Int := fun cs ↦
  match Text.dropBlanks cs with
  | '-' :: cs => (allDigits cs).map fun (y, cs) ↦ (-(y : Int), cs)
  | '+' :: cs => (allDigits cs).map fun (y, cs) ↦ ((y : Int), cs)
  | cs => (digits 1 4 cs).map fun (y, cs) ↦ ((y : Int), cs)

def number : Step Nat := fun cs ↦ digits 1 2 (Text.dropBlanks cs)

def mark (c : Char) : Step Unit := fun cs ↦ literal c (Text.dropBlanks cs)

def looseDate : Step Date := fun cs ↦ do
  let (y, cs) ← year cs
  let ((), cs) ← mark '-' cs
  let (m, cs) ← number cs
  let ((), cs) ← mark '-' cs
  let (d, cs) ← number cs
  return (← Date.ofCivil? y m d, cs)

/-- The fraction behind a point, if there is one: nine places count and the rest are passed over. -/
def fraction : Step Nat
  | '.' :: cs => do
    let (_, rest) ← allDigits cs
    let ds := (cs.takeWhile Text.isDigit).take 9
    return (Text.ofDigits ds * pow10 (9 - ds.length), rest)
  | cs => some (0, cs)

/-- Second of the day and nanoseconds. Second 60 is the leap second behind second 59. -/
def timeOfDay? (h m s nanos : Nat) : Option (Nat × Nat) := do
  guard (h < 24 ∧ m < 60 ∧ s ≤ 60)
  return if s = 60 then (h * 3600 + m * 60 + 59, nanos + 1000000000) else (h * 3600 + m * 60 + s, nanos)

def looseTime : Step (Nat × Nat) := fun cs ↦ do
  let (h, cs) ← number cs
  let ((), cs) ← mark ':' cs
  let (m, cs) ← number cs
  let ((), cs) ← mark ':' cs
  let (s, cs) ← number cs
  let (nanos, cs) ← fraction cs
  return (← timeOfDay? h m s nanos, Text.dropBlanks cs)

def momentOf? (d : Date) (time : Nat × Nat) (offset : Int) : Option Moment :=
  Moment.of? (d.days * 86400 + time.1 - offset) time.2

def ended? {α : Type} : α × List Char → Option α
  | (a, []) => some a
  | _ => none

/-- A sign, two digits of hours and two of minutes, with what `between` passes over between them. An
offset is shorter than a day. -/
def signedOffset (between : Step Unit) : Step Int
  | c :: cs => do
    let sign : Int ← if c = '+' then some 1 else if c = '-' ∨ c = '\u2212' then some (-1) else none
    let (h, cs) ← digits 2 2 cs
    let ((), cs) ← between cs
    let (m, cs) ← digits 2 2 cs
    guard (h < 24 ∧ m < 60)
    return (sign * (h * 3600 + m * 60), cs)
  | [] => none

def offset (between : Step Unit) : Step Int
  | 'Z' :: cs | 'z' :: cs => some (0, cs)
  | cs => signedOffset between cs

def strictDate : Step Date := fun cs ↦ do
  let (y, cs) ← digits 4 4 cs
  let ((), cs) ← literal '-' cs
  let (m, cs) ← digits 2 2 cs
  let ((), cs) ← literal '-' cs
  let (d, cs) ← digits 2 2 cs
  return (← Date.ofCivil? y m d, cs)

def strictTime : Step (Nat × Nat) := fun cs ↦ do
  let (h, cs) ← digits 2 2 cs
  let ((), cs) ← literal ':' cs
  let (m, cs) ← digits 2 2 cs
  let ((), cs) ← literal ':' cs
  let (s, cs) ← digits 2 2 cs
  let (nanos, cs) ← fraction cs
  return (← timeOfDay? h m s nanos, cs)

def dateTimeMark : Step Unit
  | 'T' :: cs | 't' :: cs | ' ' :: cs => some ((), cs)
  | _ => none

def colonsOrBlanks : Step Unit := fun cs ↦
  some ((), cs.dropWhile fun c ↦ c == ':' || Text.isBlank c)

def lenientOffset : Step Int := fun cs ↦
  let name := (cs.take 3).map Char.toLower
  if name = ['u', 't', 'c'] then some (0, cs.drop 3) else offset colonsOrBlanks cs

end Calendar

open Calendar

def Date.read? (s : String) : Option Date := do
  let (d, cs) ← looseDate s.toList
  ended? (d, Text.dropBlanks cs)

namespace Moment

def readLocal? (s : String) : Option Moment := do
  let (d, cs) ← looseDate s.toList
  let ((), cs) ← mark 'T' cs
  ended? (← momentOf? d (← looseTime cs).1 0, (← looseTime cs).2)

/-- A moment with an offset, every part in its place and of its width. -/
def readStrict? (s : String) : Option Moment := do
  let (d, cs) ← strictDate s.toList
  let ((), cs) ← dateTimeMark cs
  let (time, cs) ← strictTime cs
  let (shift, cs) ← offset (literal ':') cs
  ended? (← momentOf? d time shift, cs)

/-- A moment with an offset, blanks allowed between the parts. -/
def readLenient? (s : String) : Option Moment := do
  let (d, cs) ← looseDate s.toList
  let ((), cs) ← dateTimeMark cs
  let (time, cs) ← looseTime cs
  let (shift, cs) ← lenientOffset cs
  ended? (← momentOf? d time shift, Text.dropBlanks cs)

end Moment

end Upsert
