import Upsert.Batch
import Upsert.Plan.Lowering
import Upsert.Sql.Insert

namespace Upsert

open Sql (Term Arbiter)

def targetColumn (name : String) : Except PlanError Term :=
  if Text.isBlankText name then .error (.invalidExpression .blankTarget) else .ok (.column none name)

namespace KeyedColumn

def toTerm (c : KeyedColumn) : Term := .key (.column none c.column) c.key

def target (c : KeyedColumn) : Except PlanError Term := do
  return .key (← targetColumn c.column) c.key

end KeyedColumn

def lowerPredicate (e : Option Expression) : Except PlanError (Option Term) :=
  e.mapM (Expression.lower .indexPredicate)

namespace ConflictTarget

/-- The plain columns of a target. The column of a keyed one holds other keys besides. -/
def plainColumns : ConflictTarget → List String
  | .columns names => names
  | .constraint _ names => names
  | .keyed _ => []

def arbiter (predicate : Option Expression) : ConflictTarget → Except PlanError Arbiter
  | .columns names => do
    let terms ← names.mapM targetColumn
    return .index terms (← lowerPredicate predicate)
  | .keyed pairs => do
    let terms ← pairs.mapM KeyedColumn.target
    return .index terms (← lowerPredicate predicate)
  | .constraint name _ =>
    if predicate.isSome then .error (.invalidExpression (.predicateOnConstraint name))
    else .ok (.constraint name)

end ConflictTarget

/-- Without a target any constraint may conflict, which only an action that updates nothing allows. -/
def resolveArbiter (target : Option ConflictTarget) (action : Action) (predicate : Option Expression) :
    Except PlanError (Option Arbiter) :=
  match target.filter fun t ↦ !t.isEmpty with
  | some t => some <$> t.arbiter predicate
  | none =>
    if action.isUpdate then .error .missingConflictTarget
    else if predicate.isSome then .error (.invalidExpression .predicateWithoutColumns)
    else .ok none

end Upsert
