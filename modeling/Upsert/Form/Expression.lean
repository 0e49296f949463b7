import Upsert.Form.Value
import Upsert.Expression

namespace Upsert

def Comparison.words : List (String × Comparison) :=
  [("eq", .eq), ("not_eq", .notEq), ("lt", .lt), ("lt_eq", .ltEq), ("gt", .gt), ("gt_eq", .gtEq),
    ("is_distinct_from", .isDistinctFrom), ("is_not_distinct_from", .isNotDistinctFrom)]

def Comparison.name : Comparison → String
  | .eq => "eq"
  | .notEq => "not_eq"
  | .lt => "lt"
  | .ltEq => "lt_eq"
  | .gt => "gt"
  | .gtEq => "gt_eq"
  | .isDistinctFrom => "is_distinct_from"
  | .isNotDistinctFrom => "is_not_distinct_from"

namespace Expression

mutual

def toForm : Expression → Json
  | .literal v => .object [("literal", v.toForm)]
  | .column name => .object [("column_ref", .string name)]
  | .proposed name => .object [("proposed_column_ref", .string name)]
  | .comparison op lhs rhs =>
    .object [("comparison",
      .object [("op", .string op.name), ("lhs", lhs.toForm), ("rhs", rhs.toForm)])]
  | .and items => .object [("and", .array (toForms items))]
  | .or items => .object [("or", .array (toForms items))]
  | .not e => .object [("not", e.toForm)]
  | .isNull e => .object [("is_null", e.toForm)]
  | .isNotNull e => .object [("is_not_null", e.toForm)]

def toForms : List Expression → List Json
  | [] => []
  | e :: es => e.toForm :: toForms es

end

def readerTo : Nat → Reader Expression
  | 0 => fun _ _ ↦ .error .malformed
  | levels + 1 =>
    let inner := readerTo levels
    Reader.tagged
      [("literal", .content (Value.reader.map .literal)),
        ("column_ref", .content (Reader.string.map .column)),
        ("proposed_column_ref", .content (Reader.string.map .proposed)),
        ("comparison", .content <|
          ((Fields.required "op" (Reader.word Comparison.words)).and
            ((Fields.required "lhs" inner).and (Fields.required "rhs" inner))).record.map
              fun (op, lhs, rhs) ↦ .comparison op lhs rhs),
        ("and", .content (inner.list.map .and)),
        ("or", .content (inner.list.map .or)),
        ("not", .content (inner.map .not)),
        ("is_null", .content (inner.map .isNull)),
        ("is_not_null", .content (inner.map .isNotNull))]

/-- Each level opens an object, so no level is missing. -/
def reader : Reader Expression := readerTo (Outline.maxDepth + 1)

end Expression

end Upsert
