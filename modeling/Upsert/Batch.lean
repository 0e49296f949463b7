import Upsert.Expression
import Upsert.Row
import Upsert.Text.Basic

namespace Upsert

structure Target where
  schema : Option String
  table : String
  primaryKey : List String

def Target.defaultKey : List String := ["id"]

structure KeyedColumn where
  column : String
  key : String

inductive ConflictTarget
  | columns (names : List String)
  | keyed (pairs : List KeyedColumn)
  | constraint (name : String) (columns : List String)

/-- A target that names nothing decides nothing. -/
def ConflictTarget.isEmpty : ConflictTarget → Bool
  | .columns names => names.isEmpty
  | .keyed pairs => pairs.isEmpty
  | .constraint name _ => Text.isBlankText name

structure Assignment where
  column : String
  value : Expression

inductive UpdateSet
  /-- Every inserted column but those of the target, to its proposed value. -/
  | inserted
  | columns (names : List String)
  | assignments (list : List Assignment)

def UpdateSet.isInserted : UpdateSet → Bool
  | .inserted => true
  | _ => false

inductive Action
  | nothing
  | update (set : UpdateSet) (condition : Option Expression)

def Action.isUpdate : Action → Bool
  | .nothing => false
  | .update _ _ => true

structure Batch where
  rows : List Row
  /-- Without a target, any constraint may conflict. -/
  conflictTarget : Option ConflictTarget
  action : Action
  indexPredicate : Option Expression := none
  returnFullRow : Bool := false

def Batch.ignoringConflicts (rows : List Row) : Batch :=
  { rows, conflictTarget := none, action := .nothing }

/-- The columns of a batch, in the order in which values are sent. -/
abbrev Layout := List String

end Upsert
