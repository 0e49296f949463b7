import Upsert.Engine.Key

namespace Upsert

inductive Level
  | debug
  | info
  | warn
  | error
  deriving DecidableEq

def Level.name : Level → String
  | .debug => "debug"
  | .info => "info"
  | .warn => "warn"
  | .error => "error"

structure Event where
  level : Level
  message : String
  fields : List (String × String) := []
  deriving DecidableEq

abbrev Journal := List Event

namespace Layout

def nameSet (r : Row) : List String := r.columnSet.entries.map Prod.fst

def check (expected : List String) (index : Nat) : List Row → Except UpsertError Unit
  | [] => .ok ()
  | r :: rs =>
    if nameSet r = expected then check expected (index + 1) rs
    else .error (.schemaMismatch index expected (nameSet r))

/-- The columns of the first row, if every row has these columns in some order. -/
def ofRows : List Row → Except UpsertError Layout
  | [] => .ok []
  | r :: rs => do
    check (nameSet r) 1 rs
    return r.columns

end Layout

namespace Reconciliation

variable (sources : List KeySource)

/-- The row that was sent, with what was returned laid over it. -/
def merged (sent stored : Row) : Row :=
  sent.overlay ((KeySource.synthetic sources).foldl Row.erase stored)

/-- Of several returned rows with one key the last counts. -/
def table (returned : List Row) : KeyTable Row :=
  returned.foldl (fun t row ↦ t.insert (Key.ofReturned sources row) row) []

/-- Takes each row that was sent to the returned row of its key, which then belongs to no further one. -/
def outcomes (shape : KeyShape) : KeyTable Row → List Row → List Outcome
  | _, [] => []
  | t, row :: rows =>
    let key := Key.ofSent sources shape row
    match t.find? key with
    | some stored => .applied (merged sources row stored) :: outcomes shape (t.erase key) rows
    | none => .skipped :: outcomes shape t rows

/-- One outcome for each row that was sent, in the same order. It is an error if returned rows are left. -/
def reconcile (sent returned : List Row) : Except UpsertError (List Outcome) :=
  let result := outcomes sources (KeyShape.ofReturned sources returned) (table sources returned) sent
  let left := returned.length - Outcome.appliedCount result
  if left = 0 then .ok result else .error (.unreconciledRows left)

end Reconciliation

/-- The statement of a batch. Whatever can be found wrong without the server is found here. -/
def Target.prepare (t : Target) (b : Batch) : Except UpsertError Statement := do
  let layout ← Layout.ofRows b.rows
  let statement ← (t.statement layout b).mapError .ofPlan
  KeyChecker.checkRows statement.keySources b.rows
  return statement

/-- What sends statements to a server, and keeps the journal. -/
structure Executor (m : Type → Type) where
  query : String → List Value → m (Except DbError (List Row))
  note : Event → m Unit

structure Upserter (m : Type → Type) where
  executor : Executor m
  target : Target

namespace Upserter

def nothingToDo (t : Target) : Event :=
  { level := .debug, message := "Empty batch, nothing to upsert", fields := [("table", t.table)] }

def executing (s : Statement) : Event :=
  { level := .debug, message := "Executing upsert statement",
    fields := [("sql", s.sql), ("params", toString s.params.length)] }

def completed (t : Target) (outcomes : List Outcome) : Event :=
  { level := .info, message := "Upsert batch completed",
    fields := [("table", t.table), ("applied", toString (Outcome.appliedCount outcomes)),
      ("skipped", toString (Outcome.skippedCount outcomes))] }

variable {m : Type → Type} [Monad m] (u : Upserter m)

def execute (b : Batch) : m (Except UpsertError (List Outcome)) := do
  if b.rows.isEmpty then
    u.executor.note (nothingToDo u.target)
    return .ok []
  else
    match u.target.prepare b with
    | .error e => return .error e
    | .ok statement =>
      u.executor.note (executing statement)
      match ← u.executor.query statement.sql statement.params with
      | .error e => return .error (.database e)
      | .ok returned =>
        match Reconciliation.reconcile statement.keySources b.rows returned with
        | .error e => return .error e
        | .ok outcomes =>
          u.executor.note (completed u.target outcomes)
          return .ok outcomes

def single (b : Batch) : m (Except UpsertError (Option Row)) := do
  return (← u.execute b).map fun outcomes ↦ outcomes.head?.bind Outcome.row?

def upsert (row : Row) (target : ConflictTarget) (action : Action) : m (Except UpsertError (Option Row)) :=
  u.single { rows := [row], conflictTarget := some target, action, returnFullRow := true }

def upsertKey (row : Row) (target : ConflictTarget) (action : Action) :
    m (Except UpsertError (Option (List Value))) := do
  let stored ← u.single { rows := [row], conflictTarget := some target, action }
  return stored.map fun row? ↦ row?.map fun row ↦ u.target.primaryKey.map row.get

def insertOrIgnore (rows : List Row) (target : Option ConflictTarget) :
    m (Except UpsertError (List Outcome)) :=
  u.execute { rows, conflictTarget := target, action := .nothing }

end Upserter

end Upsert
