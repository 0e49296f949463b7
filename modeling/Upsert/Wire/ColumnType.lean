namespace Upsert

inductive BaseType
  | bool
  | int2
  | int4
  | int8
  | oid
  | float4
  | float8
  | numeric
  | text
  | varchar
  | bpchar
  | name
  | unknown
  | json
  | jsonb
  | uuid
  | bytea
  | date
  | timestamp
  | timestamptz
  | textArray
  | varcharArray
  | bpcharArray
  | nameArray
  | other (name : String)
  deriving DecidableEq

inductive ColumnType
  | base (t : BaseType)
  | defined (schema name : String) (labels : Option (List String))
  deriving DecidableEq

namespace BaseType

def typeName : BaseType → String
  | .bool => "bool"
  | .int2 => "int2"
  | .int4 => "int4"
  | .int8 => "int8"
  | .oid => "oid"
  | .float4 => "float4"
  | .float8 => "float8"
  | .numeric => "numeric"
  | .text => "text"
  | .varchar => "varchar"
  | .bpchar => "bpchar"
  | .name => "name"
  | .unknown => "unknown"
  | .json => "json"
  | .jsonb => "jsonb"
  | .uuid => "uuid"
  | .bytea => "bytea"
  | .date => "date"
  | .timestamp => "timestamp"
  | .timestamptz => "timestamptz"
  | .textArray => "_text"
  | .varcharArray => "_varchar"
  | .bpcharArray => "_bpchar"
  | .nameArray => "_name"
  | .other s => s

def known : List BaseType :=
  [.bool, .int2, .int4, .int8, .oid, .float4, .float8, .numeric, .text, .varchar, .bpchar, .name,
    .unknown, .json, .jsonb, .uuid, .bytea, .date, .timestamp, .timestamptz, .textArray,
    .varcharArray, .bpcharArray, .nameArray]

def ofName (name : String) : BaseType :=
  (known.find? fun t ↦ t.typeName == name).getD (.other name)

def textItem? : BaseType → Option Nat
  | .textArray => some 25
  | .varcharArray => some 1043
  | .bpcharArray => some 1042
  | .nameArray => some 19
  | _ => none

def isText : BaseType → Bool
  | .text | .varchar | .bpchar | .name => true
  | _ => false

def isJson : BaseType → Bool
  | .json | .jsonb => true
  | _ => false

end BaseType

namespace ColumnType

def name : ColumnType → String
  | .base t => t.typeName
  | .defined _ name _ => name

def text : ColumnType → String
  | .base t => t.typeName
  | .defined schema name _ =>
    if schema = "public" ∨ schema = "pg_catalog" then name else schema ++ "." ++ name

def isEnum : ColumnType → Bool
  | .defined _ _ labels => labels.isSome
  | .base _ => false

def isText : ColumnType → Bool
  | .base t => t.isText
  | .defined _ _ _ => false

def isJson : ColumnType → Bool
  | .base t => t.isJson
  | .defined _ _ _ => false

def isHstore (t : ColumnType) : Bool := t.name == "hstore"

end ColumnType

end Upsert
