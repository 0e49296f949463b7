import Upsert.Connection.Settings

namespace Upsert.Url

/-- A percent sign without two hexadecimal digits behind it stands for itself. -/
def percentDecoded : List UInt8 → List UInt8
  | [] => []
  | 37 :: a :: b :: rest =>
    match Text.hexDigit? (Char.ofNat a.toNat), Text.hexDigit? (Char.ofNat b.toNat) with
    | some h, some l => UInt8.ofNat (h * 16 + l) :: percentDecoded rest
    | _, _ => 37 :: percentDecoded (a :: b :: rest)
  | o :: rest => o :: percentDecoded rest

def decodedOctets (cs : List Char) : List UInt8 := percentDecoded (Text.utf8 (String.ofList cs))

def decoded? (cs : List Char) : Option String := (Text.ofUtf8 (decodedOctets cs)).toOption

def afterScheme? (cs : List Char) : Option (List Char) :=
  ["postgres://", "postgresql://"].findSome? fun scheme ↦
    if scheme.toList.isPrefixOf cs then some (cs.drop scheme.length) else none

def takeCredentials (s : Settings) (cs : List Char) : Option (Settings × List Char) :=
  match Text.cutOnce '@' cs with
  | (_, none) => some (s, cs)
  | (credentials, some rest) => do
    let (user, password) := Text.cutOnce ':' credentials
    let user ← decoded? user
    let s := { s with user := some user }
    return (match password with
      | some p => { s with password := some (decodedOctets p) }
      | none => s, rest)

def addHost (s : Settings) (host : List Char) : Option Settings := do
  return s.addHost (← Host.ofOctets? (decodedOctets host))

def hostAndPort? (cs : List Char) : Option (List Char × Option (List Char)) :=
  match cs with
  | '[' :: cs =>
    match Text.cutOnce ']' cs with
    | (_, none) => none
    | (host, some []) => some (host, none)
    | (host, some (':' :: port)) => some (host, some port)
    | _ => none
  | cs => some (Text.cutOnce ':' cs)

def addHostAndPort (s : Settings) (cs : List Char) : Option Settings := do
  let (host, port) ← hostAndPort? cs
  let s ← addHost s host
  s.add? "port" (← port.elim (some (toString defaultPort)) decoded?)

def takeHosts (s : Settings) (cs : List Char) : Option (Settings × List Char) := do
  let (hosts, rest) := (Text.cut? (fun c ↦ c == '/' || c == '?') cs).getD (cs, [])
  if hosts.isEmpty then return (s, rest)
  else return (← (Text.split ',' hosts).foldlM addHostAndPort s, rest)

def takeDatabase (s : Settings) (cs : List Char) : Option (Settings × List Char) :=
  match cs with
  | '/' :: cs => do
    let (name, rest) := (Text.cut? (· == '?') cs).getD (cs, [])
    if name.isEmpty then return (s, rest)
    else
      let name ← decoded? name
      return ({ s with database := some name }, rest)
  | _ => some (s, cs)

def addOptions : Nat → Settings → List Char → Option Settings
  | 0, _, _ => none
  | _, s, [] => some s
  | fuel + 1, s, cs =>
    match Text.cutOnce '=' cs with
    | (_, none) => none
    | (name, some rest) => do
      let name ← decoded? name
      let (value, rest) := Text.cutOnce '&' rest
      let s ← if name = "host" then addHost s value else s.add? name (← decoded? value)
      addOptions fuel s (rest.getD [])

def takeOptions (s : Settings) (cs : List Char) : Option Settings :=
  match cs with
  | '?' :: cs => addOptions (cs.length + 1) s cs
  | _ => some s

def settings? (cs : List Char) : Option Settings := do
  let (s, cs) ← takeCredentials {} cs
  let (s, cs) ← takeHosts s cs
  let (s, cs) ← takeDatabase s cs
  takeOptions s cs

end Upsert.Url
