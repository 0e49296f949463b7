import Upsert.Wire.Encode

namespace Upsert.Value

abbrev Decoded (α : Type) := Except CodecError α

def takeInt (width : Nat) (os : Octets) : Decoded (Int × Octets) :=
  (os.takeInt? width).elim (.error .short) .ok

def takeNat (width : Nat) (os : Octets) : Decoded (Nat × Octets) :=
  (os.takeNat? width).elim (.error .short) .ok

def drained {α : Type} (error : CodecError) : α × Octets → Decoded α
  | (a, []) => .ok a
  | _ => .error error

def decodeText (os : Octets) : Decoded String := (Text.ofUtf8 os).mapError .utf8

def decodeBoolean : Octets → Decoded Bool
  | [o] => .ok (o != 0)
  | _ => .error .size

def decodeInt (width : Nat) (os : Octets) : Decoded Int64 := do
  return Int64.ofInt (← drained .size (← takeInt width os))

def decodeOid (os : Octets) : Decoded Int64 := do
  return Int64.ofInt (← drained .size (← takeNat 4 os))

def decodeFloat4 (os : Octets) : Decoded Binary64 := do
  return Binary32.toBinary64 ⟨UInt32.ofNat (← drained .size (← takeNat 4 os))⟩

def decodeFloat8 (os : Octets) : Decoded Binary64 := do
  return ⟨UInt64.ofNat (← drained .size (← takeNat 8 os))⟩

def takeGroups : Nat → Octets → Decoded (List Nat)
  | 0, _ => .ok []
  | count + 1, os => do
    let (g, os) ← takeNat 2 os
    return g :: (← takeGroups count os)

/-- What follows the groups is not looked at. -/
def decodeNumeric (os : Octets) : Decoded Decimal := do
  let (count, os) ← takeNat 2 os
  let (weight, os) ← takeInt 2 os
  let (sign, os) ← takeNat 2 os
  let (scale, os) ← takeNat 2 os
  let gs ← takeGroups count os
  if sign ≠ 0 ∧ sign ≠ 0x4000 then throw .decimal
  else
    (Numeric.ofGroups? (sign == 0x4000) weight scale gs).elim (.error .decimal) fun n ↦ .ok n.toDecimal

/-- The octets one by one, and a letter that no document has outside a text for those that are not ASCII. -/
def plainText (os : Octets) : String :=
  String.ofList (os.map fun o ↦ if o.toNat < 128 then Char.ofNat o.toNat else 'x')

/-- The fault of a document whose octet at `index` belongs to no character. What a text holds is looked at
when it is closed. -/
def jsonFault (os : Octets) (index : Nat) : Fault :=
  let unfinished (s : String) : Bool :=
    match Json.read s with
    | .error .unfinished => true
    | _ => false
  if unfinished (plainText (os.take (index + 1))) && unfinished ("\"" ++ plainText (os.drop index)) then
    .unfinished
  else .malformed

def decodeJson (os : Octets) : Decoded Json :=
  match Text.ofUtf8 os with
  | .ok s => (Json.read s).mapError .json
  | .error (.invalid _ index) => .error (.json (jsonFault os index))
  | .error (.incomplete index) => .error (.json (jsonFault os index))

def decodeJsonb : Octets → Decoded Json
  | [] => .error .short
  | version :: os => if version = 1 then decodeJson os else .error .jsonVersion

def decodeUuid (os : Octets) : Decoded Uuid := (Uuid.ofOctets? os).elim (.error .uuidSize) .ok

def decodeDate (os : Octets) : Decoded Date := do
  let days ← drained (.undrained "date") (← takeInt 4 os)
  (Date.ofDays? (days + 10957)).elim (.error .calendarRange) .ok

def decodeMoment (os : Octets) : Decoded Moment := do
  let micros ← drained (.undrained "timestamp") (← takeInt 8 os)
  (Moment.of? (epochSeconds + micros / 1000000) ((micros % 1000000).toNat * 1000)).elim
    (.error .calendarRange) .ok

def takeDimensions (items : Int) : Nat → Octets → Decoded (Int × Octets)
  | 0, os => .ok (items, os)
  | count + 1, os => do
    let (length, os) ← takeInt 4 os
    if length < 0 then throw .arrayDimensionSize
    else
      let (_, os) ← takeInt 4 os
      if Int32.maxValue.toInt < items * length then throw .arrayTooLong
      else takeDimensions (items * length) count os

def takeItems : Nat → Octets → Decoded (List String)
  | 0, os => drained (.undrained "arrayvalue") ([], os)
  | count + 1, os => do
    let (length, os) ← takeInt 4 os
    if length < 0 then throw .null
    else
      match os.split? length.toNat with
      | none => throw .arrayItemSize
      | some (front, rest) =>
        let s ← decodeText front
        return s :: (← takeItems count rest)

def decodeStrings (os : Octets) : Decoded (List String) := do
  let (dimensions, os) ← takeInt 4 os
  if dimensions < 0 then throw .arrayDimensionCount
  else
    let (_, os) ← takeInt 4 os
    let (_, os) ← takeNat 4 os
    let (items, os) ← takeDimensions 1 dimensions.toNat os
    if 1 < dimensions then throw .arrayDimensions
    else takeItems (if dimensions = 0 then 0 else items.toNat) os

def decodeOctets (t : ColumnType) (os : Octets) : Decoded Value :=
  match t with
  | .base .bool => .boolean <$> decodeBoolean os
  | .base .int2 => .int <$> decodeInt 2 os
  | .base .int4 => .int <$> decodeInt 4 os
  | .base .int8 => .int <$> decodeInt 8 os
  | .base .oid => .int <$> decodeOid os
  | .base .float4 => .float <$> decodeFloat4 os
  | .base .float8 => .float <$> decodeFloat8 os
  | .base .numeric => .decimal <$> decodeNumeric os
  | .base .text | .base .varchar | .base .bpchar | .base .name | .base .unknown =>
    .string <$> decodeText os
  | .base .json => .json <$> decodeJson os
  | .base .jsonb => .json <$> decodeJsonb os
  | .base .uuid => .uuid <$> decodeUuid os
  | .base .bytea => .ok (.bytes os)
  | .base .date => .date <$> decodeDate os
  | .base .timestamp => .localTimestamp <$> decodeMoment os
  | .base .timestamptz => .timestamp <$> decodeMoment os
  | .base .textArray | .base .varcharArray | .base .bpcharArray => .strings <$> decodeStrings os
  | _ =>
    if t.isHstore then .hstore <$> (Hstore.decode os).mapError .hstore
    else if t.isEnum ∨ t.name = "citext" then .string <$> decodeText os
    else .error (.unsupported t)

def decode (t : ColumnType) : Option Octets → Decoded Value
  | none => .ok .null
  | some os => decodeOctets t os

end Upsert.Value
