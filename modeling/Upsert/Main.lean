import Upsert.Command.Run

namespace Upsert

def terminalLink : Link IO where
  dial _ := return false
  requestEncryption := return false
  start _ := return .error .unreachable
  prepare _ := return .error .closed
  run _ := return .error .closed
  perform _ := return .error .closed
  note e := do
    if e.level ≠ .debug then
      let fields := e.fields.map fun (k, v) ↦ s!" {k}={v}"
      IO.eprintln s!"{e.level.name}: {e.message}{String.join fields}"

def attempt (a : IO String) : IO (Except String String) := do
  match ← a.toBaseIO with
  | .ok text => return .ok text
  | .error e => return .error (toString e)

def terminal : Surroundings IO where
  textOf path := attempt (IO.FS.readFile path)
  save path text := return (← attempt do IO.FS.writeFile path text; return "").map fun _ ↦ ()
  environment := do
    return ((← IO.getEnv databaseUrlName).map (databaseUrlName, ·)).toList
  link := terminalLink

end Upsert

open Upsert in
def main (words : List String) : IO UInt32 := do
  let exit ← (Invocation.ofWords words).perform terminal
  IO.print exit.output
  if let some e := exit.error then IO.eprintln s!"Error: {e.message}"
  return UInt32.ofNat exit.code
