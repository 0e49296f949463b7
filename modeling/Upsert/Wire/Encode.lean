import Upsert.Form.Reader
import Upsert.Value.Canonical
import Upsert.Wire.Error
import Upsert.Wire.Numeric

namespace Upsert.Value

variable (t : ColumnType)

def unbindable {α : Type} (kind : String) : Except CodecError α := .error (.unbindable kind t)

def epochSeconds : Int := 10957 * 86400

/-- Microseconds since 2000-01-01, less the rest of the last one. -/
def microseconds (m : Moment) : Int :=
  ((m.seconds - epochSeconds) * 1000000000 + m.nanos).tdiv 1000

def encodeMoment (m : Moment) : Octets := Octets.ofInt 8 (microseconds m)

def encodeDate (d : Date) : Octets := Octets.ofInt 4 (d.days - 10957)

def encodeText (s : String) : Except CodecError Octets :=
  match t with
  | .base .text | .base .varchar | .base .bpchar | .base .name | .base .unknown => .ok (Text.utf8 s)
  | .base _ => unbindable t "&str"
  | .defined _ name _ =>
    if name = "citext" then .ok (Text.utf8 s)
    else if name = "ltree" ∨ name = "lquery" ∨ name = "ltxtquery" then .ok (1 :: Text.utf8 s)
    else unbindable t "&str"

def encodeJson (j : Json) : Octets :=
  let os := Text.utf8 j.text
  if t = .base .jsonb then 1 :: os else os

def encodeNumeric (n : Numeric) : Except CodecError Octets :=
  match t with
  | .base .numeric => .ok n.encode
  | _ => unbindable t "rust_decimal::decimal::Decimal"

def encodeNarrow (width : Nat) (n : Int) : Except CodecError Octets :=
  if pow2 (8 * width) ≤ 2 * n then .error (.narrow .tooLarge)
  else if 2 * n < -pow2 (8 * width) then .error (.narrow .tooSmall)
  else .ok (Octets.ofInt width n)

def encodeInt (n : Int64) : Except CodecError Octets :=
  match t with
  | .base .int2 => encodeNarrow 2 n.toInt
  | .base .int4 => encodeNarrow 4 n.toInt
  | .base .int8 => .ok (Octets.ofInt 8 n.toInt)
  | .base .float4 => .ok (Octets.ofInt 4 (Binary32.ofInt n.toInt).bits.toNat)
  | .base .float8 => .ok (Octets.ofInt 8 (Binary64.ofInt n.toInt).bits.toNat)
  | .base .numeric => .ok (Numeric.ofInt64 n).encode
  | _ => if t.isText then encodeText t (toString n.toInt) else unbindable t "i64"

def readNumeric (s : String) : Except CodecError Numeric :=
  (Numeric.read? s).elim (.error .decimal) .ok

def encodeFloat (x : Binary64) : Except CodecError Octets :=
  match t with
  | .base .float4 => .ok (Octets.ofInt 4 (Binary32.ofBinary64 x).bits.toNat)
  | .base .float8 => .ok (Octets.ofInt 8 x.bits.toNat)
  | .base .numeric =>
    if x.isFinite then do encodeNumeric t (← readNumeric x.text) else .error .notFinite
  | _ => if t.isText then encodeText t x.text else unbindable t "f64"

def encodeDecimal (d : Decimal) : Except CodecError Octets :=
  match t with
  | .base .float4 | .base .float8 => encodeFloat t d.toBinary64
  | .base .int2 | .base .int4 | .base .int8 =>
    match d.toInt64? with
    | some n => encodeInt t n
    | none => .error .notWhole
  | _ => if t.isText then encodeText t d.text else do encodeNumeric t (← readNumeric d.text)

/-- Text is read as the type, unless that is one of texts. -/
def encodeString (s : String) : Except CodecError Octets :=
  let trimmed := Text.trim s
  match t with
  | .base .int2 | .base .int4 | .base .int8 => do
    encodeInt t (← (Text.readInt64 trimmed).mapError .wholeNumber)
  | .base .float4 | .base .float8 => do
    encodeFloat t (← (Binary64.read trimmed).mapError .float)
  | .base .numeric => do encodeNumeric t (← readNumeric trimmed)
  | .base .bool =>
    (readBoolean? trimmed).elim (.error .boolean) fun b ↦ .ok [if b then 1 else 0]
  | .base .uuid => (Uuid.read? trimmed).elim (.error .uuid) fun u ↦ .ok u.octets
  | .base .date => (Date.read? trimmed).elim (.error .calendar) fun d ↦ .ok (encodeDate d)
  | .base .timestamp =>
    (Moment.readLocal? trimmed).elim (.error .calendar) fun m ↦ .ok (encodeMoment m)
  | .base .timestamptz =>
    (Moment.readStrict? trimmed).elim (.error .calendar) fun m ↦ .ok (encodeMoment m)
  | .base .json | .base .jsonb => .ok (encodeJson t (.string s))
  | _ => if t.isEnum then .ok (Text.utf8 s) else encodeText t s

/-- The entries of a flat object of texts and nulls. -/
def hstoreEntries? : Json → Option Hstore
  | .object members => do
    let entries ← members.mapM fun
      | (k, .string s) => some (k, some s)
      | (k, .null) => some (k, none)
      | _ => none
    return Dictionary.ofList entries
  | _ => none

def encodeHstore (m : Hstore) : Except CodecError Octets := (Hstore.encode m).mapError .hstore

def encodeDocument (j : Json) : Except CodecError Octets :=
  if t.isJson then .ok (encodeJson t j)
  else if t.isText then encodeText t j.text
  else if t.isHstore then (hstoreEntries? j).elim (unbindable t "json") encodeHstore
  else unbindable t "json"

def encodeStrings (items : List String) : Except CodecError Octets :=
  match t with
  | .base b =>
    match b.textItem? with
    | some item =>
      .ok (Octets.ofInt 4 1 ++ Octets.ofInt 4 0 ++ Octets.ofInt 4 item ++ Octets.ofInt 4 items.length ++
        Octets.ofInt 4 1 ++
        items.flatMap fun s ↦ Octets.ofInt 4 (Text.utf8 s).length ++ Text.utf8 s)
    | none => unbindable t "alloc::vec::Vec<alloc::string::String>"
  | _ => unbindable t "alloc::vec::Vec<alloc::string::String>"

def encodeTimestamp (m : Moment) : Except CodecError Octets :=
  match t with
  | .base .timestamp | .base .timestamptz => .ok (encodeMoment m)
  | _ => unbindable t "chrono::datetime::DateTime<chrono::offset::utc::Utc>"

def encodeLocalTimestamp (m : Moment) : Except CodecError Octets :=
  match t with
  | .base .timestamp | .base .timestamptz => .ok (encodeMoment m)
  | _ => unbindable t "chrono::naive::datetime::NaiveDateTime"

/-- The binary form of a value as a parameter of the type; nothing, for null. Scalars and arrays that come
from JSON input go into JSON columns as documents. -/
def encode (v : Value) : Except CodecError (Option Octets) :=
  match v with
  | .null => .ok none
  | .boolean b => some <$>
    match t with
    | .base .json | .base .jsonb => .ok (encodeJson t v.toJson)
    | .base .bool => .ok [if b then 1 else 0]
    | _ => unbindable t "bool"
  | .int n => some <$> if t.isJson then .ok (encodeJson t v.toJson) else encodeInt t n
  | .float x => some <$> if t.isJson then .ok (encodeJson t v.toJson) else encodeFloat t x
  | .decimal d => some <$> encodeDecimal t d
  | .string s => some <$> encodeString t s
  | .json j => some <$> encodeDocument t j
  | .uuid u => some <$>
    match t with
    | .base .uuid => .ok u.octets
    | _ => encodeText t u.text
  | .bytes os => some <$>
    match t with
    | .base .bytea => .ok os
    | _ => unbindable t "alloc::vec::Vec<u8>"
  | .date d => some <$>
    match t with
    | .base .date => .ok (encodeDate d)
    | _ => unbindable t "chrono::naive::date::NaiveDate"
  | .timestamp m => some <$> encodeTimestamp t m
  | .localTimestamp m => some <$> encodeLocalTimestamp t m
  | .strings items => some <$>
    if t.isJson then .ok (encodeJson t v.toJson) else encodeStrings t items
  | .hstore m => some <$> if t.isHstore then encodeHstore m else unbindable t "hstore"

end Upsert.Value
