import Upsert.Expression
import Upsert.Sql.Token

namespace Upsert.Sql

inductive Operator
  | comparison (op : Comparison)
  | and
  | or
  deriving DecidableEq

inductive Term
  | column (qualifier : Option String) (name : String)
  | excluded (name : String)
  | value (v : Value)
  | verbatim (s : String)
  | key (e : Term) (key : String)
  | binary (op : Operator) (lhs rhs : Term)
  | not (e : Term)
  | isNull (e : Term)
  | isNotNull (e : Term)
  | labelled (e : Term) (name : String)

def proposedRow : String := "EXCLUDED"

def spaced (words : List String) : List Token :=
  .blank :: words.flatMap fun w ↦ [.word w, .blank]

def Operator.tokens : Operator → List Token
  | .comparison .eq => [.blank, .mark "=", .blank]
  | .comparison .notEq => [.blank, .mark "<>", .blank]
  | .comparison .lt => [.blank, .mark "<", .blank]
  | .comparison .ltEq => [.blank, .mark "<=", .blank]
  | .comparison .gt => [.blank, .mark ">", .blank]
  | .comparison .gtEq => [.blank, .mark ">=", .blank]
  | .comparison .isDistinctFrom => spaced ["IS", "DISTINCT", "FROM"]
  | .comparison .isNotDistinctFrom => spaced ["IS", "NOT", "DISTINCT", "FROM"]
  | .and => spaced ["AND"]
  | .or => spaced ["OR"]

namespace Term

def truth (b : Bool) : Term := .verbatim (if b then "TRUE" else "FALSE")

def all : Term := .verbatim "*"

/-- Every operation stands between parentheses. -/
def tokens : Term → List Token
  | .column none name => [.name name]
  | .column (some qualifier) name => [.name qualifier, .mark ".", .name name]
  | .excluded name => [.word proposedRow, .mark ".", .name name]
  | .value v => [.value v]
  | .verbatim s => [.verbatim s]
  | .key e k => parenthesized (e.tokens ++ [.mark "->", .literal k])
  | .binary op lhs rhs => parenthesized (lhs.tokens ++ op.tokens ++ rhs.tokens)
  | .not e => parenthesized ([.word "NOT", .blank] ++ e.tokens)
  | .isNull e => parenthesized (e.tokens ++ [.blank, .word "IS", .blank, .word "NULL"])
  | .isNotNull e =>
    parenthesized (e.tokens ++ [.blank, .word "IS", .blank, .word "NOT", .blank, .word "NULL"])
  | .labelled e name => e.tokens ++ spaced ["AS"] ++ [.name name]

def listTokens (es : List Term) : List Token := separated (es.map tokens)

end Term

end Upsert.Sql
