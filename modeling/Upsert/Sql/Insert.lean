import Upsert.Sql.Term

namespace Upsert.Sql

structure TableName where
  schema : Option String
  name : String

inductive Arbiter
  /-- The unique index over these terms, of those rows that the predicate selects. -/
  | index (terms : List Term) (predicate : Option Term)
  | constraint (name : String)

structure Setting where
  column : String
  value : Term

inductive Reaction
  | nothing
  | update (settings : List Setting) (condition : Option Term)

structure OnConflict where
  /-- Without an arbiter, any constraint may conflict. -/
  arbiter : Option Arbiter
  reaction : Reaction

structure Insert where
  table : TableName
  columns : List String
  rows : List (List Term)
  onConflict : Option OnConflict
  returning : List Term

def TableName.tokens (t : TableName) : List Token :=
  match t.schema with
  | some schema => [.name schema, .mark ".", .name t.name]
  | none => [.name t.name]

def whereTokens : Option Term → List Token
  | some e => spaced ["WHERE"] ++ e.tokens
  | none => []

def Arbiter.tokens : Arbiter → List Token
  | .index terms predicate =>
    .blank :: parenthesized (Term.listTokens terms) ++ whereTokens predicate
  | .constraint name => spaced ["ON", "CONSTRAINT"] ++ [.name name]

def Setting.tokens (s : Setting) : List Token :=
  [.name s.column, .blank, .mark "=", .blank] ++ s.value.tokens

def Reaction.tokens : Reaction → List Token
  | .nothing => [.blank, .word "DO", .blank, .word "NOTHING"]
  | .update settings condition =>
    spaced ["DO", "UPDATE", "SET"] ++ separated (settings.map Setting.tokens) ++ whereTokens condition

def OnConflict.tokens (c : OnConflict) : List Token :=
  [.blank, .word "ON", .blank, .word "CONFLICT"] ++ (c.arbiter.elim [] Arbiter.tokens) ++ c.reaction.tokens

def Insert.tokens (i : Insert) : List Token :=
  [.word "INSERT", .blank, .word "INTO", .blank] ++ i.table.tokens ++ [.blank] ++
    parenthesized (separated (i.columns.map fun c ↦ [.name c])) ++ spaced ["VALUES"] ++
    separated (i.rows.map fun row ↦ parenthesized (Term.listTokens row)) ++
    i.onConflict.elim [] OnConflict.tokens ++
    (if i.returning.isEmpty then [] else spaced ["RETURNING"] ++ Term.listTokens i.returning) ++
    [.mark ";"]

end Upsert.Sql
