import Upsert.Value.Basic

namespace Upsert

structure Field where
  name : String
  value : Value

/-- One logical row. Rows that are built by the operations below hold no column twice. -/
structure Row where
  fields : List Field

namespace Row

def empty : Row := ⟨[]⟩

def setField (name : String) (v : Value) : List Field → List Field
  | [] => [⟨name, v⟩]
  | f :: rest => if f.name = name then ⟨f.name, v⟩ :: rest else f :: setField name v rest

def set (r : Row) (name : String) (v : Value) : Row := ⟨setField name v r.fields⟩

def setAll (r : Row) (fields : List Field) : Row :=
  fields.foldl (fun r f ↦ r.set f.name f.value) r

/-- Of several fields of one column the first gives the place and the last the value. -/
def ofFields (fields : List Field) : Row := empty.setAll fields

def get? (r : Row) (name : String) : Option Value :=
  (r.fields.find? fun f ↦ f.name == name).map Field.value

/-- A missing column reads as null. -/
def get (r : Row) (name : String) : Value := (r.get? name).getD .null

def contains (r : Row) (name : String) : Bool := r.fields.any fun f ↦ f.name == name

def erase (r : Row) (name : String) : Row := ⟨r.fields.eraseP fun f ↦ f.name == name⟩

def columns (r : Row) : List String := r.fields.map Field.name

def columnSet (r : Row) : Dictionary Unit := .ofList (r.columns.map (·, ()))

/-- The values of `other` win. -/
def overlay (r other : Row) : Row := r.setAll other.fields

def eq (r s : Row) : Bool :=
  r.columns == s.columns && r.fields.map Field.value == s.fields.map Field.value

instance : BEq Row := ⟨eq⟩

end Row

inductive Outcome
  /-- Inserted or updated: the row with what the server returned laid over it. -/
  | applied (row : Row)
  | skipped

namespace Outcome

def row? : Outcome → Option Row
  | .applied row => some row
  | .skipped => none

def isApplied (o : Outcome) : Bool := o.row?.isSome

def isSkipped (o : Outcome) : Bool := !o.isApplied

def eq : Outcome → Outcome → Bool
  | .applied r, .applied s => r == s
  | .skipped, .skipped => true
  | _, _ => false

instance : BEq Outcome := ⟨eq⟩

def appliedCount (outcomes : List Outcome) : Nat := outcomes.countP isApplied

def skippedCount (outcomes : List Outcome) : Nat := outcomes.countP isSkipped

end Outcome

end Upsert
