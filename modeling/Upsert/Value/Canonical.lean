import Upsert.Value.Text
import Upsert.Calendar.Reading
import Upsert.Text.Basic

namespace Upsert.Value

/-- The form in which parts of keys are compared. Whole numbers and decimals share one, and so do texts,
identifiers and dates. -/
def canonical : Value → Value
  | .float x => .float (if x.isZero then .zero else x)
  | .int n => .decimal (.ofInt n.toInt)
  | .decimal d => .decimal d.normalized
  | .uuid u => .string u.text
  | .date d => .string d.text
  | .timestamp t => .timestamp t.toMicroseconds
  | .localTimestamp t => .localTimestamp t.toMicroseconds
  | v => v

def readBoolean? (s : String) : Option Bool :=
  if s = "true" then some true else if s = "false" then some false else none

def coerced? : Value → Value → Option Value
  | .null, _ => none
  | .string s, .int _ | .string s, .decimal _ => .decimal <$> Decimal.read? (Text.trim s)
  | .float x, .int _ | .float x, .decimal _ => .decimal <$> Decimal.read? x.text
  | .string s, .float _ => .float <$> (Binary64.read (Text.trim s)).toOption
  | .int n, .float _ => some (.float (.ofInt n.toInt))
  | .decimal d, .float _ => some (.float d.toBinary64)
  | .string s, .boolean _ => .boolean <$> readBoolean? (Text.trim s)
  | .string s, .uuid _ => .uuid <$> Uuid.read? (Text.trim s)
  | .string s, .date _ => .date <$> Date.read? (Text.trim s)
  | .string s, .timestamp _ => .timestamp <$> Moment.readStrict? (Text.trim s)
  | .localTimestamp t, .timestamp _ => some (.timestamp t)
  | .string s, .localTimestamp _ => .localTimestamp <$> Moment.readLocal? (Text.trim s)
  | .timestamp t, .localTimestamp _ => some (.localTimestamp t)
  | .json (.string s), .string _ => some (.string s)
  | .json _, .json _ => none
  | v, .json _ => some (.json v.toJson)
  | _, _ => none

/-- Reads the value as the type of `like`; one that cannot be read so stays as it is. -/
def coerceLike (v like : Value) : Value := (v.coerced? like).getD v

end Upsert.Value
