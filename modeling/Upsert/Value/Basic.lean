import Upsert.Number.Decimal
import Upsert.Calendar.Moment
import Upsert.Json.Basic
import Upsert.Uuid

namespace Upsert

abbrev Hstore := Dictionary (Option String)

inductive Value
  | null
  | boolean (b : Bool)
  | int (n : Int64)
  | float (x : Binary64)
  | decimal (d : Decimal)
  | string (s : String)
  | json (j : Json)
  | uuid (u : Uuid)
  | bytes (octets : List UInt8)
  | date (d : Date)
  | timestamp (t : Moment)
  | localTimestamp (t : Moment)
  | strings (items : List String)
  | hstore (entries : Hstore)

inductive Fingerprint
  | null
  | boolean (b : Bool)
  | int (n : Int64)
  | float (bits : UInt64)
  | decimal (text : String)
  | string (s : String)
  | json (text : String)
  | uuid (u : Uuid)
  | bytes (octets : List UInt8)
  | date (d : Date)
  | timestamp (t : Moment)
  | localTimestamp (t : Moment)
  | strings (items : List String)
  | hstore (entries : List (String × Option String))
  deriving DecidableEq

namespace Value

def isNull : Value → Bool
  | .null => true
  | _ => false

/-- Values of different kinds differ. Floats are told apart by their bits, decimals and JSON documents
by the numbers they stand for. -/
def eq : Value → Value → Bool
  | .null, .null => true
  | .boolean a, .boolean b => a == b
  | .int m, .int n => m == n
  | .float x, .float y => x == y
  | .decimal c, .decimal d => c.numEq d
  | .string s, .string t => s == t
  | .json i, .json j => i.eq j
  | .uuid u, .uuid v => u == v
  | .bytes a, .bytes b => a == b
  | .date c, .date d => c == d
  | .timestamp s, .timestamp t => s == t
  | .localTimestamp s, .localTimestamp t => s == t
  | .strings xs, .strings ys => xs == ys
  | .hstore m, .hstore n => m == n
  | _, _ => false

instance : BEq Value := ⟨eq⟩

def fingerprint : Value → Fingerprint
  | .null => .null
  | .boolean b => .boolean b
  | .int n => .int n
  | .float x => .float x.bits
  | .decimal d => .decimal d.normalized.text
  | .string s => .string s
  | .json j => .json j.text
  | .uuid u => .uuid u
  | .bytes octets => .bytes octets
  | .date d => .date d
  | .timestamp t => .timestamp t
  | .localTimestamp t => .localTimestamp t
  | .strings items => .strings items
  | .hstore m => .hstore m.entries

def asInt64? : Value → Option Int64
  | .int n => some n
  | .string s => (Text.readInt64 s).toOption
  | .json (.number n) => n.toInt64?
  | _ => none

def asString? : Value → Option String
  | .string s => some s
  | .json (.string s) => some s
  | _ => none

/-- What the operator `->` takes out of a value: text out of a map, a document out of a JSON object, and
null where there is nothing under the key. -/
def extractKey (key : String) : Value → Value
  | .hstore m => (m.find? key).join.elim .null .string
  | .json (.object members) => (members.lookup key).elim .null .json
  | _ => .null

end Value

end Upsert
