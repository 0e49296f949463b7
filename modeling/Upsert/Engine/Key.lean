import Upsert.Connection.Error
import Upsert.Plan.Statement
import Upsert.Text.Escaped
import Upsert.Value.Canonical

namespace Upsert

inductive UpsertError
  | schemaMismatch (row : Nat) (expected found : List String)
  | missingConflictTarget
  /-- Two rows of a batch have one key, so that a returned row could belong to either. -/
  | duplicateConflictKey (first duplicate : Nat)
  /-- Returned rows that belong to no row of the batch. -/
  | unreconciledRows (count : Nat)
  | plan (e : PlanError)
  | database (e : DbError)
  deriving DecidableEq

namespace UpsertError

def ofPlan : PlanError → UpsertError
  | .missingConflictTarget => .missingConflictTarget
  | e => .plan e

def message : UpsertError → String
  | .schemaMismatch row expected found =>
    s!"row {row} has a different column set: expected {Text.escapedList expected}, found {Text.escapedList found}"
  | .missingConflictTarget => PlanError.missingConflictTarget.message
  | .duplicateConflictKey first duplicate => s!"row {duplicate} repeats the conflict key of row {first}"
  | .unreconciledRows count => s!"{count} returned rows could not be matched to an input row"
  | .plan e => s!"Plan error: {e.message}"
  | .database e => s!"Database error: {e.message}"

end UpsertError

abbrev Key := List Value

/-- Do two keys find one another in a hash table? -/
def Key.same (k l : Key) : Bool := k == l && k.map Value.fingerprint == l.map Value.fingerprint

namespace KeySource

def sentValue (row : Row) : KeySource → Value
  | .column c => row.get c
  | .keyed c k _ => (row.get c).extractKey k

def returnedValue (row : Row) : KeySource → Value
  | .column c => row.get c
  | .keyed _ _ a => row.get a

end KeySource

/-- At each position of the key a value that was returned there, if there is one other than null. All rows of
a statement return the same types, so one value is enough to know how a value that was sent has to be read. -/
abbrev KeyShape := List (Option Value)

namespace KeyShape

def fill : KeyShape → List Value → KeyShape
  | none :: slots, v :: vs => (if v.isNull then none else some v) :: fill slots vs
  | some s :: slots, _ :: vs => some s :: fill slots vs
  | slots, [] => slots
  | [], _ => []

def isFull (shape : KeyShape) : Bool := shape.all Option.isSome

def sample (sources : List KeySource) : KeyShape → List Row → KeyShape
  | shape, [] => shape
  | shape, row :: rows =>
    if shape.isFull then shape
    else sample sources (shape.fill (sources.map (KeySource.returnedValue row))) rows

def ofReturned (sources : List KeySource) (rows : List Row) : KeyShape :=
  sample sources (sources.map fun _ ↦ none) rows

def at? (shape : KeyShape) (index : Nat) : Option Value := shape[index]?.join

end KeyShape

namespace Key

def shaped (like : Option Value) (v : Value) : Value := (like.elim v v.coerceLike).canonical

/-- The key of a row that is sent, each component read as what was returned at its position. -/
def ofSent (sources : List KeySource) (shape : KeyShape) (row : Row) : Key :=
  (sources.map (KeySource.sentValue row)).zipIdx.map fun (v, i) ↦ shaped (shape.at? i) v

def ofInput (sources : List KeySource) (row : Row) : Key := ofSent sources [] row

def ofReturned (sources : List KeySource) (row : Row) : Key :=
  sources.map fun s ↦ (s.returnedValue row).canonical

end Key

abbrev KeyTable (α : Type) := List (Key × α)

namespace KeyTable

variable {α : Type}

def find? (key : Key) (t : KeyTable α) : Option α := (List.find? (fun e ↦ e.1.same key) t).map Prod.snd

def insert (key : Key) (a : α) : KeyTable α → KeyTable α
  | [] => [(key, a)]
  | e :: t => if e.1.same key then (e.1, a) :: t else e :: insert key a t

def erase (key : Key) (t : KeyTable α) : KeyTable α := List.eraseP (fun e ↦ e.1.same key) t

end KeyTable

structure KeyChecker where
  seen : KeyTable Nat := []

namespace KeyChecker

/-- A key that was seen before is an error, and is not remembered again. -/
def check (c : KeyChecker) (index : Nat) (key : Key) : Except UpsertError KeyChecker :=
  match c.seen.find? key with
  | some first => .error (.duplicateConflictKey first index)
  | none => .ok ⟨c.seen.insert key index⟩

def checkFrom (sources : List KeySource) (c : KeyChecker) (index : Nat) : List Row → Except UpsertError Unit
  | [] => .ok ()
  | row :: rows => do
    let c ← c.check index (Key.ofInput sources row)
    checkFrom sources c (index + 1) rows

def checkRows (sources : List KeySource) (rows : List Row) : Except UpsertError Unit :=
  checkFrom sources {} 0 rows

end KeyChecker

end Upsert
