import Upsert.Text.Basic

namespace Upsert

inductive Command
  | run (batch : String) (url envFile output : Option String)
  | render (batch : String)
  | testConnection (url envFile : Option String)
  deriving DecidableEq

inductive Invocation
  | command (c : Command)
  | version
  | help
  | unusable
  deriving DecidableEq

namespace Invocation

abbrev Options := List (String × String)

inductive Scan
  | options (given : Options)
  | help
  | unusable

def isValue (word : String) : Bool := word == "-" || word.toList.head? != some '-'

def scan (names : List String) (given : Options) : List String → Scan
  | [] => .options given
  | word :: words =>
    match word.toList with
    | ['-', '-'] => if words.isEmpty then .options given else .unusable
    | '-' :: '-' :: cs =>
      let (name, value) := Text.cutOnce '=' cs
      let name := String.ofList name
      if name = "help" ∧ value.isNone then .help
      else if !names.contains name ∨ (given.lookup name).isSome then .unusable
      else
        match value, words with
        | some v, words => scan names (given ++ [(name, String.ofList v)]) words
        | none, v :: words => if isValue v then scan names (given ++ [(name, v)]) words else .unusable
        | none, [] => .unusable
    | '-' :: 'h' :: _ => .help
    | _ => .unusable

def withOptions (names words : List String) (f : Options → Option Command) : Invocation :=
  match scan names [] words with
  | .options given => (f given).elim .unusable .command
  | .help => .help
  | .unusable => .unusable

def commandNames : List String := ["run", "render", "test-conn", "help"]

def ofWords : List String → Invocation
  | "run" :: words =>
    withOptions ["batch", "url", "env-file", "output"] words fun given ↦ do
      return .run (← given.lookup "batch") (given.lookup "url") (given.lookup "env-file")
        (given.lookup "output")
  | "render" :: words =>
    withOptions ["batch"] words fun given ↦ do return .render (← given.lookup "batch")
  | "test-conn" :: words =>
    withOptions ["url", "env-file"] words fun given ↦
      some (.testConnection (given.lookup "url") (given.lookup "env-file"))
  | ["help"] => .help
  | ["help", name] => if commandNames.contains name then .help else .unusable
  | word :: _ =>
    match word.toList with
    | '-' :: 'V' :: _ => .version
    | '-' :: 'h' :: _ => .help
    | _ => if word = "--version" then .version else if word = "--help" then .help else .unusable
  | [] => .unusable

end Invocation

end Upsert
