import Upsert.Form.Batch
import Upsert.Row

namespace Upsert

namespace Outcome

def toForm : Outcome → Json
  | .applied row => .object [("status", .string "applied"), ("row", row.toForm)]
  | .skipped => .object [("status", .string "skipped")]

inductive Status
  | applied
  | skipped

def Status.words : List (String × Status) := [("applied", .applied), ("skipped", .skipped)]

def Status.reader : Reader Status := Reader.word words

def Status.itemReader : Reader Status := Reader.string.filterMap fun s ↦ words.lookup s

def Status.content : Status → Reader Outcome
  | .applied => Row.reader.map .applied
  | .skipped => Reader.unit.map fun _ ↦ .skipped

def Status.alone : Status → Except Fault Outcome
  | .applied => .error .unsuitable
  | .skipped => .ok .skipped

inductive Draft
  | blank
  | status (s : Status)
  /-- A row that stands before its status. It has been read as a document; read as a row when the status
  is known, it can only be unsuitable. -/
  | content (o : Outline)
  | whole (outcome : Outcome)

def Draft.readStatus (depth : Nat) (o : Outline) : Draft → Except Fault Draft
  | .blank => .status <$> Status.reader depth o
  | .content c => do
    let s ← Status.reader depth o
    .whole <$> (s.content Outline.maxDepth c).mapError fun _ ↦ .unsuitable
  | .status _ | .whole _ => .error .unsuitable

def Draft.readContent (depth : Nat) (o : Outline) : Draft → Except Fault Draft
  | .blank => do
    discard (o.document depth)
    return .content o
  | .status s => .whole <$> s.content depth o
  | .content _ | .whole _ => .error .unsuitable

def Draft.finish : Draft → Except Fault Outcome
  | .status s => s.alone
  | .whole outcome => .ok outcome
  | .blank | .content _ => .error .unsuitable

def readMembers (depth : Nat) (d : Draft) : Members → Except Fault Outcome
  | .closed => d.finish
  | .broken f _ _ => .error f
  | .unnamed _ => .error .malformed
  | .member name o rest => do
    let n ← name
    if n = "status" then readMembers depth (← d.readStatus depth o) rest
    else if n = "row" then readMembers depth (← d.readContent depth o) rest
    else o.skip; readMembers depth d rest

def readItems (depth : Nat) : Items → Except Fault Outcome
  | .item s (.item o rest) => do
    let status ← Status.itemReader depth s
    Fields.endItems (← status.content depth o) rest
  | .item s (.broken f) => do
    discard (Status.itemReader depth s)
    throw f
  | .item s .closed => do
    discard (Status.itemReader depth s)
    throw .unsuitable
  | .broken f => .error f
  | .closed => .error .unsuitable

def reader : Reader Outcome
  | depth + 1, .object members => readMembers depth .blank members
  | depth + 1, .array items => readItems depth items
  | 0, .object _ | 0, .array _ => .error .malformed
  | _, o => .error o.mismatch

def listForm (outcomes : List Outcome) : Json :=
  .object [("outcomes", .array (outcomes.map toForm))]

def listReader : Reader (List Outcome) := (Fields.required "outcomes" reader.list).record

end Outcome

end Upsert
