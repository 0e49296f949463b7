import Upsert.Connection.Address
import Upsert.Connection.Error
import Upsert.Text.Basic
import Upsert.Text.Utf8

namespace Upsert

inductive Encryption
  | disable
  | prefer
  | require
  deriving DecidableEq

inductive Negotiation
  | request
  | direct
  deriving DecidableEq

inductive SessionKind
  | any
  | readWrite
  | readOnly
  deriving DecidableEq

inductive Host
  | name (s : String)
  | socket (directory : List UInt8)
  deriving DecidableEq

structure Settings where
  user : Option String := none
  password : Option (List UInt8) := none
  database : Option String := none
  options : Option String := none
  applicationName : Option String := none
  encryption : Encryption := .prefer
  negotiation : Negotiation := .request
  hosts : List Host := []
  addresses : List String := []
  ports : List Nat := []
  sessionKind : SessionKind := .any
  bindsChannel : Bool := false

def defaultPort : Nat := 5432

structure Endpoint where
  host : Host
  port : Nat

namespace Host

def ofOctets? (os : List UInt8) : Option Host :=
  if os.head? = some 47 then some (.socket os) else (Text.ofUtf8 os).toOption.map .name

def ofText (s : String) : Host := if s.toList.head? = some '/' then .socket (Text.utf8 s) else .name s

end Host

namespace Settings

def addHost (s : Settings) (h : Host) : Settings := { s with hosts := s.hosts ++ [h] }

def addAddress? (s : Settings) (text : String) : Option Settings :=
  if Address.isAddress text then some { s with addresses := s.addresses ++ [text] } else none

def addPort? (s : Settings) (text : String) : Option Settings := do
  let port ← if text.isEmpty then some defaultPort
    else (Text.readInteger 0 65535 text).toOption.map Int.toNat
  return { s with ports := s.ports ++ [port] }

def pieces (value : String) : List String := (Text.split ',' value.toList).map String.ofList

def checked? (s : Settings) (least greatest : Int) (value : String) : Option Settings :=
  (Text.readInteger least greatest value).toOption.map fun _ ↦ s

def chosen? {α : Type} (words : List (String × α)) (value : String) (f : α → Settings) : Option Settings :=
  (words.lookup value).map f

/-- Takes up an option. Those that only concern sockets are checked and not kept. -/
def add? (s : Settings) (option value : String) : Option Settings :=
  match option with
  | "user" => some { s with user := some value }
  | "password" => some { s with password := some (Text.utf8 value) }
  | "dbname" => some { s with database := some value }
  | "options" => some { s with options := some value }
  | "application_name" => some { s with applicationName := some value }
  | "sslmode" =>
    chosen? [("disable", .disable), ("prefer", .prefer), ("require", .require)] value
      fun e ↦ { s with encryption := e }
  | "sslnegotiation" =>
    chosen? [("postgres", .request), ("direct", .direct)] value fun n ↦ { s with negotiation := n }
  | "host" => some ((pieces value).foldl (fun s h ↦ s.addHost (.ofText h)) s)
  | "hostaddr" => (pieces value).foldlM addAddress? s
  | "port" => (pieces value).foldlM addPort? s
  | "connect_timeout" | "tcp_user_timeout" | "keepalives_idle" | "keepalives_interval" =>
    s.checked? Int64.minValue.toInt Int64.maxValue.toInt value
  | "keepalives" => s.checked? 0 (UInt64.size - 1) value
  | "keepalives_retries" => s.checked? 0 (UInt32.size - 1) value
  | "target_session_attrs" =>
    chosen? [("any", .any), ("read-write", .readWrite), ("read-only", .readOnly)] value
      fun k ↦ { s with sessionKind := k }
  | "channel_binding" =>
    chosen? [("disable", false), ("prefer", false), ("require", true)] value
      fun b ↦ { s with bindsChannel := b }
  | "load_balance_hosts" => chosen? [("disable", ()), ("random", ())] value fun _ ↦ s
  | _ => none

/-- The places to try. An address wins over the name of its host, and one port serves for all. -/
def endpoints (s : Settings) : Except ClientError (List Endpoint) :=
  let count := max s.hosts.length s.addresses.length
  if count = 0 ∨ (s.hosts ≠ [] ∧ s.addresses ≠ [] ∧ s.hosts.length ≠ s.addresses.length) ∨
      (1 < s.ports.length ∧ s.ports.length ≠ count) then
    .error .inconsistentSettings
  else
    let hosts := if s.addresses = [] then s.hosts else s.addresses.map .name
    .ok (hosts.zipIdx.map fun (h, i) ↦ ⟨h, (s.ports[i]? <|> s.ports.head?).getD defaultPort⟩)

def parameters (s : Settings) : List (String × String) :=
  ("client_encoding", "UTF8") ::
    [("user", s.user), ("database", s.database), ("options", s.options),
      ("application_name", s.applicationName)].filterMap fun (k, v) ↦ v.map (k, ·)

end Settings

end Upsert
