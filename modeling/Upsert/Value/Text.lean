import Upsert.Value.Basic
import Upsert.Text.Basic

namespace Upsert.Value

def bytesText (octets : List UInt8) : String := "\\x" ++ Text.hex octets

def toJson : Value → Json
  | .null => .null
  | .boolean b => .boolean b
  | .int n => .int64 n
  | .float x => (JsonNumber.ofFloat? x).elim .null .number
  | .decimal d => .string d.text
  | .string s => .string s
  | .json j => j
  | .uuid u => .string u.text
  | .bytes octets => .string (bytesText octets)
  | .date d => .string d.text
  | .timestamp t => .string (t.text "T" ++ "+00:00")
  | .localTimestamp t => .string (t.text " ")
  | .strings items => .array (items.map .string)
  | .hstore m => .object (m.entries.map fun e ↦ (e.1, e.2.elim .null .string))

/-- The nearest value to a document. An array of texts, the empty one too, is an array of texts. -/
def ofJson : Json → Value
  | .null => .null
  | .boolean b => .boolean b
  | .number n => n.toInt64?.elim (.float n.toBinary64) .int
  | .string s => .string s
  | .array items =>
    match items.mapM fun | .string s => some s | _ => none with
    | some texts => .strings texts
    | none => .json (.array items)
  | j => .json j

def arrayItemText (s : String) : String :=
  "\"" ++ String.ofList (s.toList.flatMap fun c ↦ if c = '"' then ['\\', '"'] else [c]) ++ "\""

def entryText (e : String × Option String) : String :=
  "\"" ++ e.1 ++ "\"=>" ++ e.2.elim "NULL" fun s ↦ "\"" ++ s ++ "\""

def text : Value → String
  | .null => "NULL"
  | .boolean b => toString b
  | .int n => toString n.toInt
  | .float x => x.text
  | .decimal d => d.text
  | .string s => Text.quotedLiteral s
  | .json j => Text.quotedLiteral j.text
  | .uuid u => u.text
  | .bytes octets => "'" ++ bytesText octets ++ "'"
  | .date d => "'" ++ d.text ++ "'"
  | .timestamp t => "'" ++ t.text " " ++ " UTC'"
  | .localTimestamp t => "'" ++ t.text " " ++ "'"
  | .strings items => "'\x7b" ++ ", ".intercalate (items.map arrayItemText) ++ "\x7d'"
  | .hstore m => "'" ++ ", ".intercalate (m.entries.map entryText) ++ "'"

end Upsert.Value
