import Upsert.Sql.Term
import Upsert.Text.Basic

namespace Upsert

inductive ExpressionFault
  | predicateWithoutColumns
  | predicateOnConstraint (name : String)
  | blankTarget
  | blankReference
  | proposedInPredicate (name : String)
  | keyAssigned (column : String)
  deriving DecidableEq

inductive PlanError
  | missingConflictTarget
  | invalidExpression (fault : ExpressionFault)
  | unknownColumn (name : String)
  | emptyColumnList
  /-- What is returned cannot be matched without the key columns of the constraint. -/
  | unkeyedConstraint (name : String)
  deriving DecidableEq

def ExpressionFault.message : ExpressionFault → String
  | .predicateWithoutColumns => "an index predicate requires a column conflict target"
  | .predicateOnConstraint name => s!"an index predicate cannot be combined with constraint \x60{name}\x60"
  | .blankTarget => "conflict target with an empty column name"
  | .blankReference => "column reference with an empty name"
  | .proposedInPredicate name => s!"proposed column \x60{name}\x60 cannot appear in an index predicate"
  | .keyAssigned column => s!"conflict key column \x60{column}\x60 can only be set to its proposed value"

def PlanError.message : PlanError → String
  | .missingConflictTarget => "an update on conflict requires a conflict target"
  | .invalidExpression fault => s!"invalid expression: {fault.message}"
  | .unknownColumn name => s!"column \x60{name}\x60 is not inserted by this batch"
  | .emptyColumnList => "a batch must insert at least one column"
  | .unkeyedConstraint name =>
    s!"named constraint \x60{name}\x60 needs its key columns when the update does not overwrite every inserted column"

open Sql (Term Operator)

inductive Scope
  /-- In an update of the table: stored columns are qualified by it, and there is a proposed row. -/
  | table (name : String)
  /-- In the predicate of an index: columns are bare, and there is no proposed row. -/
  | indexPredicate

namespace Scope

def stored (s : Scope) (name : String) : Except PlanError Term :=
  if Text.isBlankText name then .error (.invalidExpression .blankReference)
  else
    match s with
    | .table t => .ok (.column (some t) name)
    | .indexPredicate => .ok (.column none name)

def proposed (s : Scope) (name : String) : Except PlanError Term :=
  if Text.isBlankText name then .error (.invalidExpression .blankReference)
  else
    match s with
    | .table _ => .ok (.excluded name)
    | .indexPredicate => .error (.invalidExpression (.proposedInPredicate name))

end Scope

namespace Expression

variable (s : Scope)

mutual

/-- The term that means the same. A conjunction or disjunction of several groups to the left; one of nothing
is a truth value. -/
def lower : Expression → Except PlanError Term
  | .literal v => .ok (.value v)
  | .column name => s.stored name
  | .proposed name => s.proposed name
  | .comparison op lhs rhs => do
    let l ← lower lhs
    let r ← lower rhs
    return .binary (.comparison op) l r
  | .and [] => .ok (.truth true)
  | .and (e :: es) => do lowerOnto .and (← lower e) es
  | .or [] => .ok (.truth false)
  | .or (e :: es) => do lowerOnto .or (← lower e) es
  | .not e => .not <$> lower e
  | .isNull e => .isNull <$> lower e
  | .isNotNull e => .isNotNull <$> lower e

def lowerOnto (op : Operator) (l : Term) : List Expression → Except PlanError Term
  | [] => .ok l
  | e :: es => do
    let r ← lower e
    lowerOnto op (.binary op l r) es

end

end Expression

end Upsert
