import Upsert.Text.Basic
import Upsert.Value.Basic

namespace Upsert.Sql

/-- The text of a statement and the values bound to it are two views of one list of tokens, so that a placeholder stands
where its value belongs. -/
inductive Token
  | word (s : String)
  | mark (s : String)
  | blank
  | name (s : String)
  | literal (s : String)
  | value (v : Value)
  | verbatim (s : String)

def placeholder (index : Nat) : String := s!"${index + 1}"

namespace Token

def text (index : Nat) : Token → String
  | .word s | .mark s | .verbatim s => s
  | .blank => " "
  | .name s => Text.quotedName s
  | .literal s => Text.quotedLiteral s
  | .value _ => placeholder index

def value? : Token → Option Value
  | .value v => some v
  | _ => none

end Token

def params (ts : List Token) : List Value := ts.filterMap Token.value?

def texts (index : Nat) : List Token → List String
  | [] => []
  | t :: ts => t.text index :: texts (if t.value?.isSome then index + 1 else index) ts

def text (ts : List Token) : String := String.join (texts 0 ts)

def separated : List (List Token) → List Token
  | [] => []
  | [ts] => ts
  | ts :: rest => ts ++ [.mark ",", .blank] ++ separated rest

def parenthesized (ts : List Token) : List Token := .mark "(" :: ts ++ [.mark ")"]

end Upsert.Sql
