import Upsert.Form.Reader
import Upsert.Value.Text
import Upsert.Calendar.Reading

namespace Upsert.Value

def nullableForm (s : Option String) : Json := s.elim .null .string

def toForm : Value → Json
  | .null => .string "Null"
  | .boolean b => .object [("Boolean", .boolean b)]
  | .int n => .object [("Int", .int64 n)]
  | .float x => .object [("Float", (JsonNumber.ofFloat? x).elim .null .number)]
  | .decimal d => .object [("Decimal", .string d.text)]
  | .string s => .object [("String", .string s)]
  | .json j => .object [("Json", j)]
  | .uuid u => .object [("Uuid", .string u.text)]
  | .bytes octets => .object [("Bytes", .array (octets.map fun o ↦ .number (.int o.toNat)))]
  | .date d => .object [("Date", .string d.text)]
  | .timestamp t => .object [("Timestamp", .string (t.text "T" ++ "Z"))]
  | .localTimestamp t => .object [("TimestampNaive", .string (t.text "T"))]
  | .strings items => .object [("StringArray", .array (items.map .string))]
  | .hstore m => .object [("Hstore", .object (m.entries.map fun e ↦ (e.1, nullableForm e.2)))]

/-- A decimal is text, or a number, which is taken as it stands in binary. -/
def decimalReader : Reader Decimal
  | _, .number (some (.int n)) => .ok (.ofInt n)
  | _, .number (some (.float x _)) => .ok (.ofBinary64 x)
  | 0, .array _ | 0, .object _ => .error .malformed
  | depth, o => Reader.string.filterMap Decimal.read? depth o

def reader : Reader Value :=
  Reader.tagged
    [("Null", .none .null),
      ("Boolean", .content (Reader.boolean.map .boolean)),
      ("Int", .content (Reader.int64.map .int)),
      ("Float", .content (Reader.number.map fun n ↦ .float n.toBinary64)),
      ("Decimal", .content (decimalReader.map .decimal)),
      ("String", .content (Reader.string.map .string)),
      ("Json", .content (Reader.map .json Outline.document)),
      ("Uuid", .content (Reader.string.filterMap fun s ↦ .uuid <$> Uuid.read? s)),
      ("Bytes", .content (Reader.octet.list.map .bytes)),
      ("Date", .content (Reader.string.filterMap fun s ↦ .date <$> Date.read? s)),
      ("Timestamp", .content (Reader.string.filterMap fun s ↦ .timestamp <$> Moment.readLenient? s)),
      ("TimestampNaive",
        .content (Reader.string.filterMap fun s ↦ .localTimestamp <$> Moment.readLocal? s)),
      ("StringArray", .content (Reader.string.list.map .strings)),
      ("Hstore", .content (Reader.string.optional.dictionary.map .hstore))]

end Upsert.Value
