import Upsert.Command.Arguments
import Upsert.Command.Environment
import Upsert.Connection.Opening
import Upsert.Form.Batch

namespace Upsert

inductive CommandError
  | file (reason : String)
  | batch (fault : Fault)
  | environment (e : EnvironmentError)
  | connector (e : ConnectorError)
  | database (e : DbError)
  | upsert (e : UpsertError)
  | unexpected (text : String)
  deriving DecidableEq

def Fault.text : Fault → String
  | .malformed => "the text is not JSON"
  | .unfinished => "the text ends too early"
  | .unsuitable => "the document does not describe a batch"

def CommandError.message : CommandError → String
  | .file reason => s!"Failed to read the batch file: {reason}"
  | .batch fault => s!"Failed to parse the batch file: {fault.text}"
  | .environment e => s!"Configuration error: {e.message}"
  | .connector e => s!"Connection error: {e.message}"
  | .database e => s!"Database error: {e.message}"
  | .upsert e => s!"Upsert failed: {e.message}"
  | .unexpected text => s!"Unexpected error: {text}"

namespace Ping

def say (level : Level) (message : String) : Event := { level, message }

def query : String := "SELECT 1"

def cause : DbError → String
  | .client e => e.message
  | e => e.message

def unexpectedText (v : Value) : String := s!"Postgres ping returned unexpected result: {v.text}"

variable {m : Type → Type} [Monad m] (l : Link m)

def ping (url : String) : m (Except CommandError Unit) := do
  l.note (say .info "Pinging Postgres")
  match ← l.connect url with
  | .error e =>
    l.note (say .error s!"Postgres connection failed: {e.message}")
    return .error (.connector e)
  | .ok () =>
    match ← l.queryOne query with
    | .error e =>
      l.note (say .error s!"Postgres ping query failed: {cause e}")
      return .error (.database e)
    | .ok row =>
      match (row.fields.head?.map Field.value).getD .null with
      | .int 1 =>
        l.note (say .info "Postgres ping succeeded")
        return .ok ()
      | v =>
        l.note (say .error (unexpectedText v))
        return .error (.unexpected (unexpectedText v))

end Ping

namespace Report

def ofRow (r : Row) : Json := .ofMembers (r.fields.map fun f ↦ (f.name, f.value.toJson))

def ofOutcome : Outcome → Json
  | .applied row => .object [("row", ofRow row), ("status", .string "applied")]
  | .skipped => .object [("status", .string "skipped")]

def ofOutcomes (outcomes : List Outcome) : Json := .array (outcomes.map ofOutcome)

def ofStatement (s : Statement) : Json :=
  .object [("params", .array (s.params.map Value.toJson)), ("sql", .string s.sql)]

def text (j : Json) : String := j.indented 0

end Report

/-- What surrounds the program: files, variables, and a link to a server. -/
structure Surroundings (m : Type → Type) where
  textOf : String → m (Except String String)
  save : String → String → m (Except String Unit)
  environment : m Environment
  link : Link m

structure Exit where
  code : Nat
  output : String := ""
  error : Option CommandError := none

namespace Command

def versionText : String := "pgupsert 0.1.0\n"

def running (f : BatchFile) : Event :=
  { level := .info, message := "Running upsert batch",
    fields := [("table", f.target.table), ("rows", toString f.batch.rows.length)] }

variable {m : Type → Type} [Monad m] (s : Surroundings m)

def loadEnvironment (file : Option String) : m (Except CommandError Environment) := do
  let env ← s.environment
  match file with
  | none => return .ok env
  | some path =>
    match ← s.textOf path with
    | .error reason => return .error (.environment (.unreadable path reason))
    | .ok text =>
      match env.load text with
      | (env, .ok ()) => return .ok env
      | (_, .error e) => return .error (.environment e)

def findUrl (url envFile : Option String) : m (Except CommandError String) := do
  return (← loadEnvironment s envFile).bind fun env ↦ (env.databaseUrl url).mapError .environment

def loadBatch (path : String) : m (Except CommandError BatchFile) := do
  match ← s.textOf path with
  | .error reason => return .error (.file reason)
  | .ok text => return (BatchFile.read text).mapError .batch

def write (j : Json) (path : Option String) : m (Except CommandError String) := do
  match path with
  | none => return .ok (Report.text j ++ "\n")
  | some path => return (← s.save path (Report.text j)).mapError .file |>.map fun _ ↦ ""

def steps : Command → ExceptT CommandError m String
  | .run batch url envFile output => do
    let url ← .mk (findUrl s url envFile)
    let file ← .mk (loadBatch s batch)
    s.link.note (running file)
    .mk do return (← s.link.connect url).mapError .connector
    let upserter : Upserter m := ⟨s.link.executor, file.target⟩
    let outcomes ← .mk do return (← upserter.execute file.batch).mapError .upsert
    .mk (write s (Report.ofOutcomes outcomes) output)
  | .render batch => do
    let file ← .mk (loadBatch s batch)
    let statement ← .mk (pure ((file.target.prepare file.batch).mapError .upsert))
    .mk (write s (Report.ofStatement statement) none)
  | .testConnection url envFile => do
    let url ← .mk (findUrl s url envFile)
    .mk (Ping.ping s.link url)
    return ""

def perform (c : Command) : m Exit := do
  match ← (steps s c).run with
  | .ok output => return { code := 0, output }
  | .error e => return { code := 1, error := some e }

end Command

def Invocation.perform {m : Type → Type} [Monad m] (s : Surroundings m) : Invocation → m Exit
  | .command c => c.perform s
  | .version => return { code := 0, output := Command.versionText }
  | .help => return { code := 0 }
  | .unusable => return { code := 2 }

end Upsert
