import Upsert.Connection.Link
import Upsert.Connection.Reading

namespace Upsert.Link

def retrying (e : ConnectorError) : Event :=
  { level := .warn, message := "Postgres TLS handshake failed, retrying without TLS",
    fields := [("error", e.message)] }

variable {m : Type → Type} [Monad m] (l : Link m) (s : Settings)

def negotiate (offered : Bool) : ExceptT ClientError m Unit :=
  match s.encryption with
  | .disable => pure ()
  | .require => throw .encryption
  | .prefer => do
    if offered then
      if s.negotiation = .direct then throw .encryption
      else if ← l.requestEncryption then throw .encryption

def readOnlyStatement : String := "SHOW transaction_read_only"

/-- Before a session is open, nonsense counts as a failure to communicate. -/
def early : ClientError → ClientError
  | .garbled => .communication
  | e => e

def checkSession : ExceptT ClientError m Unit := do
  if s.sessionKind ≠ .any then
    let rows ← (ExceptT.mk (l.perform readOnlyStatement)).adapt early
    match rows.head?.map List.head? with
    | none => throw .unexpected
    | some cell =>
      if cell = some (some "on") ∧ s.sessionKind = .readWrite then throw .unreachable
      else if cell = some (some "off") ∧ s.sessionKind = .readOnly then throw .unreachable

def openAt (offered : Bool) (e : Endpoint) : ExceptT ClientError m Unit := do
  if !(← l.dial e) then throw .unreachable
  l.negotiate s offered
  if !(s.parameters.all fun p ↦ isSendable p.2) then throw .unsendable
  ExceptT.mk (l.start s.parameters)
  if s.bindsChannel then throw .authentication
  l.checkSession s

/-- Where no place works, the error of the last counts. -/
def openFirst (offered : Bool) : List Endpoint → ExceptT ClientError m Unit
  | [] => throw .unreachable
  | [e] => l.openAt s offered e
  | e :: es => tryCatch (l.openAt s offered e) fun _ ↦ openFirst offered es

def openWith (offered : Bool) : m (Except ConnectorError Unit) := do
  match s.endpoints with
  | .error e => return .error (.failed e)
  | .ok es => return (← (l.openFirst s offered es).run).mapError .failed

/-- Nothing is encrypted here: where a server agrees to encryption, or where it has to, there is no connection. -/
def connect (url : String) : m (Except ConnectorError Unit) := do
  match Settings.read? url with
  | none => return .error (.invalidUrl .unreadableSettings)
  | some s =>
    match s.encryption with
    | .disable => l.openWith s false
    | .require => l.openWith s true
    | .prefer =>
      match ← l.openWith s true with
      | .ok () => return .ok ()
      | .error e =>
        l.note (retrying e)
        l.openWith s false

end Upsert.Link
