namespace Upsert

inductive ClientError
  | unreadableSettings
  | inconsistentSettings
  | unreachable
  | encryption
  | authentication
  | reported
  | garbled
  | unexpected
  | communication
  | unsendable
  | closed
  | parameterCount (expected found : Nat)
  | parameter (index : Nat)
  | rowCount
  deriving DecidableEq

inductive DbError
  | client (e : ClientError)
  | decode (column typeName : String)
  deriving DecidableEq

inductive ConnectorError
  | invalidUrl (e : ClientError)
  | failed (e : ClientError)
  deriving DecidableEq

def ClientError.message : ClientError → String
  | .unreadableSettings => "invalid connection string"
  | .inconsistentSettings => "invalid configuration"
  | .unreachable => "error connecting to server"
  | .encryption => "error performing TLS handshake"
  | .authentication => "authentication error"
  | .reported => "db error"
  | .unexpected => "unexpected message from server"
  | .unsendable => "error encoding message to server"
  | .garbled => "error parsing response from server"
  | .communication => "error communicating with the server"
  | .closed => "connection closed"
  | .parameterCount expected found => s!"expected {expected} parameters but got {found}"
  | .parameter index => s!"error serializing parameter {index}"
  | .rowCount => "query returned an unexpected number of rows"

def DbError.message : DbError → String
  | .client e => s!"SQL error: {e.message}"
  | .decode column typeName => s!"cannot decode column \x60{column}\x60 of type {typeName}"

def ConnectorError.message : ConnectorError → String
  | .invalidUrl e => s!"invalid connection url: {e.message}"
  | .failed e => s!"Postgres connection failed: {e.message}"

end Upsert
