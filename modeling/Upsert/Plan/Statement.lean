import Upsert.Plan.Arbiter

namespace Upsert

open Sql (Term Arbiter Setting Reaction Insert)

/-- One component of the key that ties a returned row to the row that was sent. -/
inductive KeySource
  | column (name : String)
  /-- Extracted from the row that was sent; the returned row has it under the label. -/
  | keyed (column key label : String)
  deriving DecidableEq

namespace KeySource

def name : KeySource → String
  | .column name => name
  | .keyed c _ _ => c

def plain? : KeySource → Option String
  | .column name => some name
  | .keyed _ _ _ => none

def label? : KeySource → Option String
  | .column _ => none
  | .keyed _ _ l => some l

def labelled? : KeySource → Option Term
  | .column _ => none
  | .keyed c key l => some (.labelled (.key (.column none c) key) l)

def synthetic (sources : List KeySource) : List String := sources.filterMap label?

end KeySource

structure Statement where
  insert : Insert
  keySources : List KeySource

namespace Statement

def sql (s : Statement) : String := Sql.text s.insert.tokens

def params (s : Statement) : List Value := Sql.params s.insert.tokens

end Statement

def keyLabel (index : Nat) : String := s!"__conflict_key_{index}"

def keyedSources (index : Nat) : List KeyedColumn → List KeySource
  | [] => []
  | c :: cs => .keyed c.column c.key (keyLabel index) :: keyedSources (index + 1) cs

/-- Where no columns are named, the whole row is the key. -/
def keySources (target : Option ConflictTarget) (layout : Layout) : List KeySource :=
  match target with
  | some (.columns (c :: cs)) | some (.constraint _ (c :: cs)) => (c :: cs).map .column
  | some (.keyed (c :: cs)) => keyedSources 0 (c :: cs)
  | _ => layout.map .column

def plainColumns (target : Option ConflictTarget) : List String :=
  target.elim [] ConflictTarget.plainColumns

def Sql.Setting.proposed (column : String) : Setting := ⟨column, .excluded column⟩

namespace Assignment

def keepsProposed (a : Assignment) : Bool :=
  match a.value with
  | .proposed name => name == a.column
  | _ => false

def lower (table : String) (sources : List KeySource) (a : Assignment) : Except PlanError Setting :=
  if (sources.any fun s ↦ s.name == a.column) && !a.keepsProposed then
    .error (.invalidExpression (.keyAssigned a.column))
  else do
    return ⟨a.column, ← a.value.lower (.table table)⟩

end Assignment

def UpdateSet.settings (table : String) (target : Option ConflictTarget) (layout : Layout)
    (sources : List KeySource) : UpdateSet → Except PlanError (List Setting)
  | .inserted =>
    .ok ((layout.filter fun c ↦ !(plainColumns target).contains c).map .proposed)
  | .columns names =>
    match names.find? fun c ↦ !layout.contains c with
    | some c => .error (.unknownColumn c)
    | none => .ok (names.map .proposed)
  | .assignments list => list.mapM (Assignment.lower table sources)

/-- Settings that change nothing, for an update that is asked to set nothing: an update has to set something,
and only a row that is updated is returned. -/
def preservingSettings (table : String) (target : Option ConflictTarget) (layout : Layout) : List Setting :=
  match (plainColumns target).filter fun c ↦ layout.contains c with
  | [] => (layout.take 1).map fun c ↦ ⟨c, .column (some table) c⟩
  | cs => cs.map .proposed

def UpdateSet.lower (table : String) (target : Option ConflictTarget) (layout : Layout)
    (sources : List KeySource) (set : UpdateSet) : Except PlanError (List Setting) := do
  match ← set.settings table target layout sources with
  | [] => return preservingSettings table target layout
  | settings => return settings

def unkeyedConstraint? : Option ConflictTarget → Option String
  | some (.constraint name []) => some name
  | _ => none

def Action.lower (table : String) (target : Option ConflictTarget) (layout : Layout)
    (sources : List KeySource) : Action → Except PlanError Reaction
  | .nothing => .ok .nothing
  | .update set condition =>
    match unkeyedConstraint? target, set.isInserted with
    | some name, false => .error (.unkeyedConstraint name)
    | _, _ => do
      let settings ← set.lower table target layout sources
      return .update settings (← condition.mapM (Expression.lower (.table table)))

def distinct (names : List String) : List String :=
  names.foldl (fun seen c ↦ if seen.contains c then seen else seen ++ [c]) []

/-- The primary key or the full row, and the key. -/
def returning (t : Target) (fullRow : Bool) (sources : List KeySource) : List Term :=
  (if fullRow then [.all]
    else (distinct (t.primaryKey ++ sources.filterMap KeySource.plain?)).map (.column none)) ++
  sources.filterMap KeySource.labelled?

def Target.tableName (t : Target) : Sql.TableName := ⟨t.schema, t.table⟩

/-- The statement that upserts a batch, with the values of every row in the order of the layout. The key is
read from the rows that are sent, so its columns have to be among them. -/
def Target.statement (t : Target) (layout : Layout) (b : Batch) : Except PlanError Statement :=
  if layout.isEmpty then .error .emptyColumnList
  else do
    let arbiter ← resolveArbiter b.conflictTarget b.action b.indexPredicate
    let sources := keySources b.conflictTarget layout
    match sources.find? fun s ↦ !layout.contains s.name with
    | some s => throw (.unknownColumn s.name)
    | none =>
      let reaction ← b.action.lower t.table b.conflictTarget layout sources
      return {
        insert := {
          table := t.tableName
          columns := layout
          rows := b.rows.map fun row ↦ layout.map fun c ↦ .value (row.get c)
          onConflict := some ⟨arbiter, reaction⟩
          returning := returning t b.returnFullRow sources }
        keySources := sources }

end Upsert
