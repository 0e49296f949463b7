import Upsert.Json.Outline

namespace Upsert

/-- Reads an outline in which so many more arrays and objects may be opened. -/
abbrev Reader (α : Type) := Nat → Outline → Except Fault α

namespace Outline

def maxDepth : Nat := 127

def mismatch : Outline → Fault
  | .number none => .malformed
  | .text (.error f) => f
  | .broken _ reading _ => reading
  | .absent => .unfinished
  | _ => .unsuitable

mutual

def skip : Outline → Except Fault Unit
  | .broken _ _ f => .error f
  | .absent => .error .unfinished
  | .array items => skipItems items
  | .object members => skipMembers members
  | _ => .ok ()

def skipItems : Items → Except Fault Unit
  | .closed => .ok ()
  | .broken f => .error f
  | .item o rest => do skip o; skipItems rest

def skipMembers : Members → Except Fault Unit
  | .closed => .ok ()
  | .broken _ f _ => .error f
  | .unnamed _ => .error .malformed
  | .member _ o rest => do skip o; skipMembers rest

end

mutual

def document : Reader Json
  | _, .null => .ok .null
  | _, .boolean b => .ok (.boolean b)
  | _, .number (some n) => .ok (.number n)
  | _, .text (.ok s) => .ok (.string s)
  | depth + 1, .array items => .array <$> documents depth items
  | depth + 1, .object members => .object <$> documentMembers depth [] members
  | 0, .array _ | 0, .object _ => .error .malformed
  | _, o => .error o.mismatch

def documents : Nat → Items → Except Fault (List Json)
  | _, .closed => .ok []
  | _, .broken f => .error f
  | depth, .item o rest => do
    let j ← document depth o
    return j :: (← documents depth rest)

def documentMembers : Nat → List (String × Json) → Members → Except Fault (List (String × Json))
  | _, before, .closed => .ok before
  | _, _, .broken f _ _ => .error f
  | _, _, .unnamed _ => .error .malformed
  | depth, before, .member name o rest => do
    let k ← name
    let j ← document depth o
    documentMembers depth (insertEntry k j before) rest

end

mutual

def ofJson : Json → Outline
  | .null => .null
  | .boolean b => .boolean b
  | .number n => .number (some n)
  | .string s => .text (.ok s)
  | .array xs => .array (itemsOfJson xs)
  | .object ms => .object (membersOfJson ms)

def itemsOfJson : List Json → Items
  | [] => .closed
  | x :: xs => .item (ofJson x) (itemsOfJson xs)

def membersOfJson : List (String × Json) → Members
  | [] => .closed
  | (k, x) :: ms => .member (.ok k) (ofJson x) (membersOfJson ms)

end

end Outline

namespace Reader

variable {α β : Type}

def map (f : α → β) (r : Reader α) : Reader β := fun depth o ↦ f <$> r depth o

def filterMap (f : α → Option β) (r : Reader α) : Reader β := fun depth o ↦ do
  (f (← r depth o)).elim (.error .unsuitable) .ok

def string : Reader String
  | _, .text (.ok s) => .ok s
  | _, o => .error o.mismatch

def boolean : Reader Bool
  | _, .boolean b => .ok b
  | _, o => .error o.mismatch

def number : Reader JsonNumber
  | _, .number (some n) => .ok n
  | _, o => .error o.mismatch

def unit : Reader Unit
  | _, .null => .ok ()
  | _, o => .error o.mismatch

def int64 : Reader Int64 := number.filterMap JsonNumber.toInt64?

def octet : Reader UInt8 :=
  number.filterMap fun
    | .int n => if 0 ≤ n ∧ n < 256 then some (UInt8.ofNat n.toNat) else none
    | .float _ _ => none

def optional (r : Reader α) : Reader (Option α)
  | _, .null => .ok none
  | _, .broken 'n' reading _ => .error reading
  | depth, o => some <$> r depth o

def listItems (r : Reader α) (depth : Nat) : Items → Except Fault (List α)
  | .closed => .ok []
  | .broken f => .error f
  | .item o rest => do
    let a ← r depth o
    return a :: (← listItems r depth rest)

def list (r : Reader α) : Reader (List α)
  | depth + 1, .array items => listItems r depth items
  | 0, .array _ => .error .malformed
  | _, o => .error o.mismatch

def mapMembers (r : Reader α) (depth : Nat) (before : Dictionary α) :
    Members → Except Fault (Dictionary α)
  | .closed => .ok before
  | .broken f _ _ => .error f
  | .unnamed _ => .error .malformed
  | .member name o rest => do
    let k ← name
    let a ← r depth o
    mapMembers r depth (before.insert k a) rest

def dictionary (r : Reader α) : Reader (Dictionary α)
  | depth + 1, .object members => mapMembers r depth .empty members
  | 0, .object _ => .error .malformed
  | _, o => .error o.mismatch

end Reader

/-- The parts of a record: read from an object, whose members stand in any order, or from an array, in the
order of the parts. -/
structure Fields (α : Type) where
  Draft : Type
  blank : Draft
  take : String → Draft → Option (Reader Draft)
  finish : Draft → Except Fault α
  listed : Nat → Items → Except Fault (α × Items)

namespace Fields

variable {α β : Type}

/-- One part. `missing` stands in where an object lacks it, `short` where an array ends before it. -/
def part (name : String) (r : Reader α) (missing short : Option α) : Fields α where
  Draft := Option α
  blank := none
  take n d :=
    if n = name then
      some fun depth o ↦ if d.isSome then .error .unsuitable else some <$> r depth o
    else none
  finish d := (d <|> missing).elim (.error .unsuitable) .ok
  listed depth
    | .item o rest => do return (← r depth o, rest)
    | .closed => short.elim (.error .unsuitable) fun a ↦ .ok (a, .closed)
    | .broken f => .error f

def required (name : String) (r : Reader α) : Fields α := part name r none none

def defaulted (name : String) (r : Reader α) (a : α) : Fields α := part name r (some a) (some a)

/-- A part that may be missing from an object, but not from an array. -/
def nullable (name : String) (r : Reader α) : Fields (Option α) :=
  part name r.optional (some none) none

def and (f : Fields α) (g : Fields β) : Fields (α × β) where
  Draft := f.Draft × g.Draft
  blank := (f.blank, g.blank)
  take n d :=
    match f.take n d.1 with
    | some r => some (r.map (·, d.2))
    | none => (g.take n d.2).map fun r ↦ r.map (d.1, ·)
  finish d := do return (← f.finish d.1, ← g.finish d.2)
  listed depth items := do
    let (a, items) ← f.listed depth items
    let (b, items) ← g.listed depth items
    return ((a, b), items)

def readMembers (f : Fields α) (depth : Nat) (d : f.Draft) : Members → Except Fault α
  | .closed => f.finish d
  | .broken fault _ _ => .error fault
  | .unnamed _ => .error .malformed
  | .member name o rest => do
    let n ← name
    match f.take n d with
    | some r => readMembers f depth (← r depth o) rest
    | none => o.skip; readMembers f depth d rest

def endItems (a : α) : Items → Except Fault α
  | .closed => .ok a
  | .broken f => .error f
  | .item _ _ => .error .malformed

def record (f : Fields α) : Reader α
  | depth + 1, .object members => f.readMembers depth f.blank members
  | depth + 1, .array items => do
    let (a, rest) ← f.listed depth items
    endItems a rest
  | 0, .object _ | 0, .array _ => .error .malformed
  | _, o => .error o.mismatch

end Fields

inductive Payload (α : Type)
  | none (a : α)
  | content (r : Reader α)

namespace Payload

variable {α : Type}

def readContent (depth : Nat) (o : Outline) : Payload α → Except Fault α
  | .none a => do Reader.unit depth o; return a
  | .content r => r depth o

def readAlone : Payload α → Except Fault α
  | .none a => .ok a
  | .content _ => .error .unsuitable

end Payload

namespace Reader

variable {α : Type}

def endMembers (a : α) : Members → Except Fault α
  | .closed => .ok a
  | .broken _ _ f => .error f
  | .unnamed _ | .member _ _ _ => .error .malformed

def lookUp (payloads : List (String × Payload α)) (tag : String) : Except Fault (Payload α) :=
  (payloads.lookup tag).elim (.error .unsuitable) .ok

/-- A tag alone, or an object of one member named by the tag. Anything else is malformed. -/
def tagged (payloads : List (String × Payload α)) : Reader α
  | _, .text s => do (← lookUp payloads (← s)).readAlone
  | depth + 1, .object members =>
    match members with
    | .closed => .error .malformed
    | .broken f _ _ => .error f
    | .unnamed start => .error start.mismatch
    | .member name o rest => do
      let payload ← lookUp payloads (← name)
      endMembers (← payload.readContent depth o) rest
  | 0, .object _ => .error .malformed
  | _, .absent => .error .unfinished
  | _, .broken '"' reading _ => .error reading
  | _, _ => .error .malformed

def word (words : List (String × α)) : Reader α :=
  tagged (words.map fun w ↦ (w.1, .none w.2))

def readText (r : Reader α) (s : String) : Except Fault α := do
  let (o, clean) := Outline.read s
  let a ← r Outline.maxDepth o
  if clean then return a else throw .malformed

end Reader

def Json.read (s : String) : Except Fault Json := Reader.readText Outline.document s

end Upsert
