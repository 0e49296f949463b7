import Upsert.Json.Outline
import Upsert.Number.Reading
import Upsert.Wire.ColumnType
import Upsert.Wire.Hstore

namespace Upsert

inductive CodecError
  | unbindable (kind : String) (type : ColumnType)
  | unsupported (type : ColumnType)
  | wholeNumber (fault : Text.IntegerFault)
  | narrow (fault : Text.IntegerFault)
  | float (fault : FloatFault)
  | boolean
  | decimal
  | uuid
  | calendar
  | json (fault : Fault)
  | utf8 (fault : Text.Utf8Fault)
  | hstore (error : HstoreError)
  | notWhole
  | notFinite
  | short
  | size
  | uuidSize
  | undrained (what : String)
  | calendarRange
  | jsonVersion
  | arrayDimensionCount
  | arrayDimensionSize
  | arrayTooLong
  | arrayDimensions
  | arrayItemSize
  | null
  deriving DecidableEq

def CodecError.message : CodecError → String
  | .unbindable kind type => s!"cannot bind a {kind} value to a column of type {type.text}"
  | .unsupported type => s!"unsupported column type {type.text}"
  | .wholeNumber fault => fault.message
  | .narrow fault => fault.message
  | .float fault => fault.message
  | .boolean => "provided string was not \x60true\x60 or \x60false\x60"
  | .decimal => "not a decimal"
  | .uuid => "not a uuid"
  | .calendar => "not a date or time"
  | .json _ => "not a JSON document"
  | .utf8 fault => fault.message
  | .hstore error => error.message
  | .notWhole => "decimal is not an integer"
  | .notFinite => "float is not a finite decimal"
  | .short => "not enough octets"
  | .size => "invalid buffer size"
  | .uuidSize => "invalid message length: uuid size mismatch"
  | .undrained what => s!"invalid message length: {what} not drained"
  | .calendarRange => "value too large to decode"
  | .jsonVersion => "unsupported JSONB encoding version"
  | .arrayDimensionCount => "invalid dimension count"
  | .arrayDimensionSize => "invalid dimension size"
  | .arrayTooLong => "too many array elements"
  | .arrayDimensions => "array contains too many dimensions"
  | .arrayItemSize => "invalid value length"
  | .null => "a Postgres value was \x60NULL\x60"

end Upsert
