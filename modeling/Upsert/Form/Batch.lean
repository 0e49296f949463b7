import Upsert.Batch
import Upsert.Form.Expression

namespace Upsert

def stringsForm (items : List String) : Json := .array (items.map .string)

namespace Field

def toForm (f : Field) : Json := .object [("name", .string f.name), ("value", f.value.toForm)]

def reader : Reader Field :=
  ((Fields.required "name" Reader.string).and (Fields.required "value" Value.reader)).record.map
    fun (name, value) ↦ ⟨name, value⟩

end Field

namespace Row

def toForm (r : Row) : Json := .object [("fields", .array (r.fields.map Field.toForm))]

/-- Repeated columns stay. -/
def reader : Reader Row := (Fields.required "fields" Field.reader.list).record.map .mk

end Row

namespace Target

def toForm (t : Target) : Json :=
  .object [("schema", t.schema.elim .null .string), ("table", .string t.table),
    ("primary_key", stringsForm t.primaryKey)]

def reader : Reader Target :=
  ((Fields.defaulted "schema" Reader.string.optional none).and
    ((Fields.required "table" Reader.string).and
      (Fields.defaulted "primary_key" Reader.string.list defaultKey))).record.map
        fun (schema, table, primaryKey) ↦ ⟨schema, table, primaryKey⟩

end Target

namespace KeyedColumn

def toForm (k : KeyedColumn) : Json :=
  .object [("column", .string k.column), ("key", .string k.key)]

def reader : Reader KeyedColumn :=
  ((Fields.required "column" Reader.string).and (Fields.required "key" Reader.string)).record.map
    fun (column, key) ↦ ⟨column, key⟩

end KeyedColumn

namespace ConflictTarget

def toForm : ConflictTarget → Json
  | .columns names => .object [("column_list", stringsForm names)]
  | .keyed pairs => .object [("keyed_column_list", .array (pairs.map KeyedColumn.toForm))]
  | .constraint name key =>
    .object [("named_constraint", .object [("name", .string name), ("columns", stringsForm key)])]

def reader : Reader ConflictTarget :=
  Reader.tagged
    [("column_list", .content (Reader.string.list.map .columns)),
      ("keyed_column_list", .content (KeyedColumn.reader.list.map .keyed)),
      ("named_constraint", .content <|
        ((Fields.required "name" Reader.string).and
          (Fields.defaulted "columns" Reader.string.list [])).record.map
            fun (name, key) ↦ .constraint name key)]

end ConflictTarget

namespace Assignment

def toForm (a : Assignment) : Json :=
  .object [("column", .string a.column), ("value", a.value.toForm)]

def reader : Reader Assignment :=
  ((Fields.required "column" Reader.string).and
    (Fields.required "value" Expression.reader)).record.map fun (column, value) ↦ ⟨column, value⟩

end Assignment

namespace UpdateSet

def toForm : UpdateSet → Json
  | .inserted => .string "inserted"
  | .columns names => .object [("columns", stringsForm names)]
  | .assignments list => .object [("assignments", .array (list.map Assignment.toForm))]

def reader : Reader UpdateSet :=
  Reader.tagged
    [("inserted", .none .inserted),
      ("columns", .content (Reader.string.list.map .columns)),
      ("assignments", .content (Assignment.reader.list.map .assignments))]

end UpdateSet

namespace Action

def toForm : Action → Json
  | .nothing => .string "nothing"
  | .update set condition =>
    .object [("update",
      .object [("set", set.toForm), ("condition", condition.elim .null Expression.toForm)])]

def reader : Reader Action :=
  Reader.tagged
    [("nothing", .none .nothing),
      ("update", .content <|
        ((Fields.defaulted "set" UpdateSet.reader .inserted).and
          (Fields.defaulted "condition" Expression.reader.optional none)).record.map
            fun (set, condition) ↦ .update set condition)]

end Action

namespace Batch

def toForm (b : Batch) : Json :=
  .object [("rows", .array (b.rows.map Row.toForm)),
    ("conflict_target", b.conflictTarget.elim .null ConflictTarget.toForm),
    ("action", b.action.toForm),
    ("index_predicate", b.indexPredicate.elim .null Expression.toForm),
    ("return_full_row", .boolean b.returnFullRow)]

def reader : Reader Batch :=
  ((Fields.required "rows" Row.reader.list).and
    ((Fields.nullable "conflict_target" ConflictTarget.reader).and
      ((Fields.required "action" Action.reader).and
        ((Fields.defaulted "index_predicate" Expression.reader.optional none).and
          (Fields.defaulted "return_full_row" Reader.boolean false))))).record.map
            fun (rows, conflictTarget, action, indexPredicate, returnFullRow) ↦
              { rows, conflictTarget, action, indexPredicate, returnFullRow }

end Batch

structure BatchFile where
  target : Target
  batch : Batch

namespace BatchFile

def row (members : Dictionary Json) : Row :=
  .ofFields (members.entries.map fun e ↦ ⟨e.1, .ofJson e.2⟩)

def reader : Reader BatchFile :=
  ((Fields.required "target" Target.reader).and
    ((Fields.defaulted "conflict_target" ConflictTarget.reader.optional none).and
      ((Fields.defaulted "action" Action.reader .nothing).and
        ((Fields.defaulted "index_predicate" Expression.reader.optional none).and
          ((Fields.defaulted "return_full_row" Reader.boolean false).and
            (Fields.required "rows" (Reader.dictionary Outline.document).list)))))).record.map
              fun (target, conflictTarget, action, indexPredicate, returnFullRow, rows) ↦
                { target,
                  batch := { rows := rows.map row, conflictTarget, action, indexPredicate, returnFullRow } }

def read (text : String) : Except Fault BatchFile := reader.readText text

end BatchFile

end Upsert
