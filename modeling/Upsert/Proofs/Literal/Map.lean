import Upsert.Proofs.Literal.Scanner
import Upsert.Proofs.Text.Dictionary

namespace Upsert.MapText

open Literal
open Text (doubled)

structure Word where
  cs : List Char
  quoted : Bool

namespace Word

def text (w : Word) : String := String.ofList w.cs

/-- The value that the word is. Between quotes no word stands for null. -/
def value (w : Word) : Option String := if !w.quoted && isNullWord w.cs then none else some w.text

end Word

abbrev Pair := Word × Word

inductive Place
  | key
  | value (key : Word)

inductive State
  | gap (place : Place)
  | quoted (place : Place) (cs : List Char) (slash : Bool)
  | bare (place : Place) (cs : List Char)
  | bareSlash (place : Place) (cs : List Char)
  | sign (key : Word)
  | arrow (key : Word)
  | behind

namespace Place

def finish : Place → Word → List Pair × State
  | .key, w => ([], .sign w)
  | .value k, w => ([(k, w)], .behind)

def stop : Place → Word → Char → Option (List Pair × State)
  | .key, w, c => if c = '=' then some ([], .arrow w) else none
  | .value k, w, c => if c = ',' then some ([(k, w)], .gap .key) else none

def opens : Place → Char → Bool
  | .key, c => c != '='
  | .value _, _ => true

end Place

namespace State

def step : State → Char → Option (List Pair × State)
  | .gap p, c =>
    if c = '"' then some ([], .quoted p [] false)
    else if isSpace c then some ([], .gap p)
    else if c = '\\' then some ([], .bareSlash p [])
    else if p.opens c then some ([], .bare p [c])
    else none
  | .quoted p cs false, c =>
    if c = '\\' then some ([], .quoted p cs true)
    else if c = '"' then some (p.finish ⟨cs, true⟩)
    else some ([], .quoted p (cs ++ [c]) false)
  | .quoted p cs true, c => some ([], .quoted p (cs ++ [c]) false)
  | .bare p cs, c =>
    if c = '\\' then some ([], .bareSlash p cs)
    else if isSpace c then some (p.finish ⟨cs, false⟩)
    else some ((p.stop ⟨cs, false⟩ c).getD ([], .bare p (cs ++ [c])))
  | .bareSlash p cs, c => some ([], .bare p (cs ++ [c]))
  | .sign k, c => if isSpace c then some ([], .sign k) else if c = '=' then some ([], .arrow k) else none
  | .arrow k, c => if c = '>' then some ([], .gap (.value k)) else none
  | .behind, c => if isSpace c then some ([], .behind) else if c = ',' then some ([], .gap .key) else none

def flush : State → Option (List Pair)
  | .gap .key | .behind => some []
  | .bare (.value k) cs => some [(k, ⟨cs, false⟩)]
  | _ => none

end State

def scanner : Scanner State Pair := ⟨State.step, State.flush⟩

def entry (p : Pair) : String × Option String := (p.1.text, p.2.value)

/-- The entries of a map, in order, as a server reads its text. -/
def read? (text : List Char) : Option (List (String × Option String)) :=
  (scanner.run (.gap .key) text).map (List.map entry)

open Scanner (run_of_step run_of_step_nil run_escaped)

def quotedWord (s : String) : List Char := '"' :: escaped s.toList ++ ['"']

def nullWord : Word := ⟨['N', 'U', 'L', 'L'], false⟩

def writtenValue (v : Option String) : List Char := v.elim nullWord.cs quotedWord

def writtenEntry (e : String × Option String) : List Char := quotedWord e.1 ++ '=' :: '>' :: writtenValue e.2

def written (entries : List (String × Option String)) : List Char := [',', ' '].intercalate (entries.map writtenEntry)

def pair (e : String × Option String) : Pair := (⟨e.1.toList, true⟩, e.2.elim nullWord fun s ↦ ⟨s.toList, true⟩)

theorem entry_pair (e : String × Option String) : entry (pair e) = e := by
  obtain ⟨k, v⟩ := e
  cases v with
  | none => exact Prod.ext String.ofList_toList rfl
  | some s => exact Prod.ext String.ofList_toList (congrArg some String.ofList_toList)

theorem step_quoted_plain (p : Place) (acc : List Char) (c : Char) (h : ¬(c = '"' ∨ c = '\\')) :
    scanner.step (.quoted p acc false) c = some ([], .quoted p (acc ++ [c]) false) := by
  obtain ⟨hq, hb⟩ := not_or.1 h
  exact (if_neg hb).trans (if_neg hq)

theorem run_quoted (p : Place) (cs acc rest : List Char) :
    scanner.run (.quoted p acc false) (escaped cs ++ '"' :: rest) =
      (scanner.run (p.finish ⟨acc ++ cs, true⟩).2 rest).map ((p.finish ⟨acc ++ cs, true⟩).1 ++ ·) := by
  have hq : scanner.step (.quoted p (acc ++ cs) false) '"' = some (p.finish ⟨acc ++ cs, true⟩) := rfl
  rw [run_escaped (fun _ ↦ rfl) (fun _ _ ↦ rfl) (step_quoted_plain p)]
  exact run_of_step hq

theorem run_quotedWord (p : Place) (s : String) (rest : List Char) :
    scanner.run (.gap p) (quotedWord s ++ rest) =
      (scanner.run (p.finish ⟨s.toList, true⟩).2 rest).map ((p.finish ⟨s.toList, true⟩).1 ++ ·) := by
  have hq : scanner.step (.gap p) '"' = some ([], .quoted p [] false) := rfl
  rw [quotedWord, List.cons_append, List.cons_append, run_of_step_nil hq, List.append_assoc, List.singleton_append,
    run_quoted, List.nil_append]

theorem run_entry (e : String × Option String) (rest : List Char) : scanner.run (.gap .key) (writtenEntry e ++ rest) =
    scanner.run (.gap (.value ⟨e.1.toList, true⟩)) (writtenValue e.2 ++ rest) := by
  have hs : scanner.step (.sign ⟨e.1.toList, true⟩) '=' = some ([], .arrow ⟨e.1.toList, true⟩) := rfl
  have ha : scanner.step (.arrow ⟨e.1.toList, true⟩) '>' = some ([], .gap (.value ⟨e.1.toList, true⟩)) := rfl
  rw [writtenEntry, List.append_assoc, run_quotedWord, List.cons_append, List.cons_append, Place.finish,
    run_of_step_nil hs, run_of_step_nil ha]
  exact Option.map_id'

theorem run_last (e : String × Option String) : scanner.run (.gap .key) (writtenEntry e) = some [pair e] := by
  rw [← List.append_nil (writtenEntry e), run_entry]
  obtain ⟨k, v⟩ := e
  cases v with
  | none => rfl
  | some s =>
    rw [writtenValue, Option.elim_some, run_quotedWord]
    rfl

theorem run_null (k : Word) (rest : List Char) : scanner.run (.gap (.value k)) (nullWord.cs ++ ',' :: rest) =
    (scanner.run (.gap .key) rest).map ((k, nullWord) :: ·) := by
  have hc : scanner.step (.bare (.value k) nullWord.cs) ',' = some ([(k, nullWord)], .gap .key) := rfl
  rw [nullWord, List.cons_append, List.cons_append, List.cons_append, List.cons_append, List.nil_append,
    run_of_step_nil (u := .bare (.value k) ['N']) rfl, run_of_step_nil (u := .bare (.value k) ['N', 'U']) rfl,
    run_of_step_nil (u := .bare (.value k) ['N', 'U', 'L']) rfl,
    run_of_step_nil (u := .bare (.value k) nullWord.cs) rfl, run_of_step hc]
  rfl

theorem run_comma (e : String × Option String) (rest : List Char) :
    scanner.run (.gap .key) (writtenEntry e ++ ',' :: ' ' :: rest) =
      (scanner.run (.gap .key) rest).map (pair e :: ·) := by
  have hs : scanner.step (.gap .key) ' ' = some ([], .gap .key) := rfl
  have hc : scanner.step .behind ',' = some ([], .gap .key) := rfl
  rw [run_entry]
  obtain ⟨k, v⟩ := e
  cases v with
  | none =>
    rw [writtenValue, Option.elim_none, run_null, run_of_step_nil hs]
    rfl
  | some s =>
    rw [writtenValue, Option.elim_some, run_quotedWord, Place.finish, run_of_step_nil hc, run_of_step_nil hs]
    rfl

theorem run_written (e : String × Option String) (entries : List (String × Option String)) :
    scanner.run (.gap .key) (written (e :: entries)) = some ((e :: entries).map pair) := by
  induction entries generalizing e with
  | nil =>
    rw [written, List.map_singleton, List.intercalate_singleton, run_last]
    rfl
  | cons e' entries ih =>
    rw [written, List.map_cons, List.map_cons, List.intercalate_cons_cons, List.append_assoc, List.cons_append,
      List.singleton_append, run_comma, ← List.map_cons, ← written, ih]
    rfl

theorem read?_written (entries : List (String × Option String)) : read? (written entries) = some entries := by
  cases entries with
  | nil => rfl
  | cons e entries =>
    have hp : (e :: entries).map (entry ∘ pair) = e :: entries := List.map_id'' entry_pair _
    rw [read?, run_written, Option.map_some, List.map_map, hp]

/-- A map that the entries may make. Of several entries of one key any may be taken. -/
structure Yields (entries : List (String × Option String)) (m : Dictionary (Option String)) : Prop where
  taken : ∀ e ∈ m.entries, e ∈ entries
  covered : ∀ e ∈ entries, (m.find? e.1).isSome

theorem yields_entries_iff {m m' : Dictionary (Option String)} : Yields m.entries m' ↔ m' = m := by
  constructor
  · intro h
    apply Dictionary.ext_find?
    intro k
    cases hk : m'.find? k with
    | some v =>
      have he : (k, v) ∈ m.entries := h.taken _ (m'.ascending.lookup_eq_some_iff.1 hk)
      exact (m.ascending.lookup_eq_some_iff.2 he).symm
    | none =>
      cases hm : m.find? k with
      | none => rfl
      | some v =>
        have he := h.covered _ (m.ascending.lookup_eq_some_iff.1 hm)
        rw [hk] at he
        cases he
  · intro h
    subst h
    refine ⟨fun e he ↦ he, fun e he ↦ ?_⟩
    rw [Dictionary.find?, m'.ascending.lookup_eq_some_iff.2 he]
    rfl

end Upsert.MapText
