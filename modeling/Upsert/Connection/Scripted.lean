import Upsert.Connection.Opening

namespace Upsert

structure Server where
  description : Description
  rows : List WireRow
  failing : Bool := false
  garbling : Bool := false
  /-- It declines encryption, and listens at the usual port in this directory. -/
  directory : Option Octets := none

/-- What goes on between a client and a server. -/
structure Exchange where
  server : Server
  refusals : Nat := 0
  isOpen : Bool := false
  statements : List String := []
  bound : Option WireRow := none
  journal : Journal := []

namespace Server

/-- The names on a path. Empty ones and single points lead nowhere else. -/
def pathNames (path : Octets) : List Octets :=
  (path.splitBy fun a b ↦ a != 47 && b != 47).filter fun name ↦ name != [47] && name != [46]

def listensAt (s : Server) (e : Endpoint) : Bool :=
  match s.directory, e.host with
  | some d, .socket directory => e.port == defaultPort && pathNames directory == pathNames d
  | _, _ => false

end Server

namespace Exchange

def send (sql : String) : StateM Exchange (Except ClientError Unit) :=
  modifyGet fun x ↦
    if !x.isOpen then (.error .closed, x)
    else if x.server.garbling then (.error .garbled, { x with isOpen := false })
    else
      let x := { x with statements := x.statements ++ [sql] }
      (if x.server.failing then .error .reported else .ok (), x)

def start : StateM Exchange (Except ClientError Unit) :=
  modifyGet fun x ↦
    if 0 < x.refusals then (.error .reported, { x with refusals := x.refusals - 1 })
    else (.ok (), { x with isOpen := true })

def bind (cells : WireRow) : StateM Exchange (Except ClientError (List WireRow)) :=
  modifyGet fun x ↦ (.ok x.server.rows, { x with bound := some cells })

def link : Link (StateM Exchange) where
  dial e := do return (← get).server.listensAt e
  requestEncryption := pure false
  start _ := start
  prepare sql := do
    let x ← get
    return (← send sql).map fun _ ↦ x.server.description
  run := bind
  perform sql := do return (← send sql).map fun _ ↦ []
  note e := modify fun x ↦ { x with journal := x.journal ++ [e] }

end Exchange

end Upsert
