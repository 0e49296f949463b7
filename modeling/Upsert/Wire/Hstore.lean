import Upsert.Text.Utf8
import Upsert.Value.Basic
import Upsert.Wire.Octets

namespace Upsert

inductive HstoreError
  | tooLarge (length : Nat)
  | negativeCount (count : Int)
  | truncatedLength
  | truncatedText
  | nullKey
  | utf8 (fault : Text.Utf8Fault)
  | trailing (count : Nat)
  deriving DecidableEq

def HstoreError.message : HstoreError → String
  | .tooLarge length => s!"hstore entry too large ({length} bytes)"
  | .negativeCount count => s!"negative hstore entry count {count}"
  | .truncatedLength => "truncated hstore length"
  | .truncatedText => "truncated hstore text"
  | .nullKey => "hstore key cannot be NULL"
  | .utf8 fault => fault.message
  | .trailing count => s!"{count} trailing bytes after hstore"

namespace Hstore

def encodeLength (n : Nat) : Except HstoreError Octets :=
  if (n : Int) ≤ Int32.maxValue.toInt then .ok (Octets.ofInt 4 n) else .error (.tooLarge n)

def encodeText (s : String) : Except HstoreError Octets := do
  let os := Text.utf8 s
  return (← encodeLength os.length) ++ os

def encodeEntries : List (String × Option String) → Except HstoreError Octets
  | [] => .ok []
  | (key, value) :: rest => do
    let k ← encodeText key
    let v ← match value with
      | some s => encodeText s
      | none => .ok (Octets.ofInt 4 (-1))
    return k ++ v ++ (← encodeEntries rest)

/-- The number of entries, and for each the length of its key, the key, the length of its value and the value. -/
def encode (m : Hstore) : Except HstoreError Octets := do
  return (← encodeLength m.entries.length) ++ (← encodeEntries m.entries)

def takeLength (os : Octets) : Except HstoreError (Int × Octets) :=
  (os.takeInt? 4).elim (.error .truncatedLength) .ok

def takeText (os : Octets) : Except HstoreError (Option String × Octets) := do
  let (length, os) ← takeLength os
  if length < 0 then return (none, os)
  else
    match os.split? length.toNat with
    | none => throw .truncatedText
    | some (front, rest) =>
      match Text.ofUtf8 front with
      | .ok s => return (some s, rest)
      | .error fault => throw (.utf8 fault)

def takeEntries (m : Hstore) : Nat → Octets → Except HstoreError (Hstore × Octets)
  | 0, os => .ok (m, os)
  | count + 1, os => do
    let (key, os) ← takeText os
    match key with
    | none => throw .nullKey
    | some key =>
      let (value, os) ← takeText os
      takeEntries (m.insert key value) count os

/-- The map that octets spell. Of several entries of one key the last counts. -/
def decode (os : Octets) : Except HstoreError Hstore := do
  let (count, os) ← takeLength os
  if count < 0 then throw (.negativeCount count)
  else
    let (m, rest) ← takeEntries .empty count.toNat os
    if rest.isEmpty then return m else throw (.trailing rest.length)

end Hstore

end Upsert
