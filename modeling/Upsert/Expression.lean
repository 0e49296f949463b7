import Upsert.Value.Basic

namespace Upsert

inductive Comparison
  | eq
  | notEq
  | lt
  | ltEq
  | gt
  | gtEq
  | isDistinctFrom
  | isNotDistinctFrom
  deriving DecidableEq

inductive Expression
  | literal (v : Value)
  | column (name : String)
  | proposed (name : String)
  | comparison (op : Comparison) (lhs rhs : Expression)
  | and (items : List Expression)
  | or (items : List Expression)
  | not (e : Expression)
  | isNull (e : Expression)
  | isNotNull (e : Expression)

namespace Expression

/-- Adds to a conjunction on the left. -/
def conj : Expression → Expression → Expression
  | .and items, e => .and (items ++ [e])
  | l, e => .and [l, e]

def disj : Expression → Expression → Expression
  | .or items, e => .or (items ++ [e])
  | l, e => .or [l, e]

end Expression

end Upsert
