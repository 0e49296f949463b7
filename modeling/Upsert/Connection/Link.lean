import Upsert.Connection.Settings
import Upsert.Engine.Upserter
import Upsert.Wire.Decode
import Upsert.Wire.Encode

namespace Upsert

structure Description where
  parameters : List ColumnType
  columns : List (String × ColumnType)

abbrev WireRow := List (Option Octets)

/-- A link to a server, with all that a client does to it. -/
structure Link (m : Type → Type) where
  dial : Endpoint → m Bool
  requestEncryption : m Bool
  start : List (String × String) → m (Except ClientError Unit)
  prepare : String → m (Except ClientError Description)
  run : WireRow → m (Except ClientError (List WireRow))
  /-- Performs statements without parameters, and gives what they return as texts. -/
  perform : String → m (Except ClientError (List (List (Option String))))
  note : Event → m Unit

namespace Link

def lost (e : ClientError) : Event :=
  { level := .error, message := "Postgres connection error", fields := [("err", e.message)] }

def returned (count : Nat) : Event :=
  { level := .debug, message := "Statement returned rows", fields := [("rows", toString count)] }

def isSendable (s : String) : Bool := s.toList.all (· != '\x00')

def encodeParams (index : Nat) : List (Value × ColumnType) → Except ClientError WireRow
  | [] => .ok []
  | (v, t) :: rest => do
    let cell ← (v.encode t).mapError fun _ ↦ .parameter index
    return cell :: (← encodeParams (index + 1) rest)

def bindParams (types : List ColumnType) (params : List Value) : Except ClientError WireRow :=
  if types.length ≠ params.length then .error (.parameterCount types.length params.length)
  else encodeParams 0 (params.zip types)

def decodeField (cell : Option Octets) (column : String × ColumnType) : Except DbError Field := do
  let v ← (Value.decode column.2 cell).mapError fun _ ↦ .decode column.1 column.2.name
  return ⟨column.1, v⟩

/-- A returned row. Of several columns of one name the last counts. -/
def decodeRow (columns : List (String × ColumnType)) (row : WireRow) : Except DbError Row := do
  return .ofFields (← (row.zip columns).mapM fun (cell, column) ↦ decodeField cell column)

variable {m : Type → Type} [Monad m] (l : Link m)

/-- A link whose server sends nonsense is lost. -/
def watched {α : Type} (step : m (Except ClientError α)) : ExceptT ClientError m α := .mk do
  let answer ← step
  if let .error .garbled := answer then l.note (lost .communication)
  return answer

def statement (sql : String) (params : List Value) : ExceptT ClientError m (Description × List WireRow) := do
  if !isSendable sql then throw .unsendable
  let d ← l.watched (l.prepare sql)
  let cells ← .mk (pure (bindParams d.parameters params))
  return (d, ← l.watched (l.run cells))

def query (sql : String) (params : List Value) : m (Except DbError (List Row)) := do
  match ← (l.statement sql params).run with
  | .error e => return .error (.client e)
  | .ok (d, rows) =>
    l.note (returned rows.length)
    return rows.mapM (decodeRow d.columns)

def queryOne (sql : String) : m (Except DbError Row) := do
  match ← (l.statement sql []).run with
  | .error e => return .error (.client e)
  | .ok (d, [row]) => return decodeRow d.columns row
  | .ok _ => return .error (.client .rowCount)

def exec (sql : String) : m (Except DbError Unit) := do
  if isSendable sql then
    match ← (l.watched (l.perform sql)).run with
    | .error e => return .error (.client e)
    | .ok _ => return .ok ()
  else return .error (.client .unsendable)

def executor : Executor m := ⟨l.query, l.note⟩

end Link

end Upsert
