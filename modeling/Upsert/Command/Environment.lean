import Upsert.Text.Basic

namespace Upsert

/-- Variables and their values. The first entry of a name counts. -/
abbrev Environment := List (String × String)

inductive EnvironmentError
  | unreadable (path reason : String)
  | emptyKey (line : Nat)
  | malformed (line : Nat)
  | noUrl
  deriving DecidableEq

def databaseUrlName : String := "DATABASE_URL"

def EnvironmentError.message : EnvironmentError → String
  | .unreadable path reason => s!"Failed to read env file {path}: {reason}"
  | .emptyKey line => s!"Invalid env file: empty key at line {line}"
  | .malformed line => s!"Invalid env file: malformed line {line} (expected KEY=VALUE)"
  | .noUrl => s!"no connection URL: pass --url or set {databaseUrlName}"

namespace Environment

def get? (env : Environment) (name : String) : Option String := env.lookup name

def set (env : Environment) (name value : String) : Environment := (name, value) :: env

/-- A value without the quotes around it, if one and the same mark begins and ends it. -/
def unquoted (cs : List Char) : List Char :=
  match cs with
  | mark :: rest =>
    if (mark = '"' ∨ mark = '\'') ∧ rest.getLast? = some mark then rest.dropLast else cs
  | [] => []

def assignment? (number : Nat) (line : List Char) : Except EnvironmentError (Option (String × String)) :=
  match Text.trimmed line with
  | [] | '#' :: _ => .ok none
  | cs =>
    match Text.cutOnce '=' cs with
    | (_, none) => .error (.malformed number)
    | (name, some value) =>
      match Text.trimmed name with
      | [] => .error (.emptyKey number)
      | name => .ok (some (String.ofList name, String.ofList (unquoted (Text.trimmed value))))

/-- Sets what the lines assign, from line `number` on. The lines before one that cannot be read still count. -/
def setLines (env : Environment) (number : Nat) : List (List Char) → Environment × Except EnvironmentError Unit
  | [] => (env, .ok ())
  | line :: lines =>
    match assignment? number line with
    | .error e => (env, .error e)
    | .ok none => setLines env (number + 1) lines
    | .ok (some (name, value)) => setLines (env.set name value) (number + 1) lines

def load (env : Environment) (text : String) : Environment × Except EnvironmentError Unit :=
  env.setLines 1 (Text.split '\n' text.toList)

def databaseUrl (env : Environment) (given : Option String) : Except EnvironmentError String :=
  match given <|> env.get? databaseUrlName with
  | some url => if Text.isBlankText url then .error .noUrl else .ok url
  | none => .error .noUrl

end Environment

end Upsert
