import Upsert.Connection.Url
import Upsert.Text.Basic

namespace Upsert.Settings

def takePlain : List Char → List Char × List Char
  | [] => ([], [])
  | ['\\'] => ([], [])
  | '\\' :: c :: cs =>
    let (value, rest) := takePlain cs
    (c :: value, rest)
  | c :: cs =>
    if Text.isBlank c then ([], c :: cs)
    else
      let (value, rest) := takePlain cs
      (c :: value, rest)

def takeQuoted? : List Char → Option (List Char × List Char)
  | [] => none
  | ['\\'] => none
  | '\'' :: cs => some ([], cs)
  | '\\' :: c :: cs => (takeQuoted? cs).map fun (value, rest) ↦ (c :: value, rest)
  | c :: cs => (takeQuoted? cs).map fun (value, rest) ↦ (c :: value, rest)

def takeValue? : List Char → Option (List Char × List Char)
  | '\'' :: cs => takeQuoted? cs
  | cs =>
    match takePlain cs with
    | ([], _) => none
    | taken => some taken

def isNameEnd (c : Char) : Bool := Text.isBlank c || c == '='

def addPairs : Nat → Settings → List Char → Option Settings
  | 0, _, _ => none
  | fuel + 1, s, cs =>
    let cs := Text.dropBlanks cs
    match cs.takeWhile fun c ↦ !isNameEnd c with
    | [] => some s
    | name =>
      match Text.dropBlanks (cs.drop name.length) with
      | '=' :: cs => do
        let (value, rest) ← takeValue? (Text.dropBlanks cs)
        addPairs fuel (← s.add? (String.ofList name) (String.ofList value)) rest
      | _ => none

def read? (s : String) : Option Settings :=
  match Url.afterScheme? s.toList with
  | some cs => Url.settings? cs
  | none => addPairs (s.length + 1) {} s.toList

end Upsert.Settings
