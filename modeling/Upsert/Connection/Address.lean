import Upsert.Text.Digits

namespace Upsert.Address

/-- A number up to 255 without needless zeros, off the front. -/
def takeOctet? (cs : List Char) : Option (List Char) :=
  let ds := cs.takeWhile Text.isDigit
  if ds.isEmpty ∨ 3 < ds.length ∨ (ds.head? = some '0' ∧ 1 < ds.length) ∨ 255 < Text.ofDigits ds then none
  else some (cs.drop ds.length)

def takeMark? (mark : Char) : List Char → Option (List Char)
  | [] => none
  | c :: cs => if c = mark then some cs else none

def takeFour? (cs : List Char) : Option (List Char) := do
  let cs ← takeMark? '.' (← takeOctet? cs)
  let cs ← takeMark? '.' (← takeOctet? cs)
  let cs ← takeMark? '.' (← takeOctet? cs)
  takeOctet? cs

def takeGroup? (cs : List Char) : Option (List Char) :=
  let ds := cs.takeWhile fun c ↦ (Text.hexDigit? c).isSome
  if ds.isEmpty ∨ 4 < ds.length then none else some (cs.drop ds.length)

/-- As many groups as there are, up to a limit: their number, whether four numbers end them, and what follows. -/
def takeGroups (first : Bool) : Nat → List Char → Nat × Bool × List Char
  | 0, cs => (0, false, cs)
  | left + 1, cs =>
    let start := if first then some cs else takeMark? ':' cs
    match if 0 < left then start.bind takeFour? else none with
    | some rest => (2, true, rest)
    | none =>
      match start.bind takeGroup? with
      | some rest =>
        let (count, four, rest) := takeGroups false left rest
        (count + 1, four, rest)
      | none => (0, false, cs)

def isGroups (cs : List Char) : Bool :=
  match takeGroups true 8 cs with
  | (8, _, rest) => rest.isEmpty
  | (_, true, _) => false
  | (count, false, ':' :: ':' :: rest) => (takeGroups true (7 - count) rest).2.2.isEmpty
  | _ => false

def isAddress (s : String) : Bool :=
  match takeFour? s.toList with
  | some rest => rest.isEmpty
  | none => isGroups s.toList

end Upsert.Address
