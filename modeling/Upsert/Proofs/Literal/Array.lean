import Mathlib.Data.List.Basic
import Mathlib.Data.List.Flatten
import Upsert.Proofs.Literal.Scanner

namespace Upsert.ArrayText

open Literal

abbrev Item := Option String

inductive State
  | outside
  /-- Where an item begins. Only in place of the first one may the braces close. -/
  | gap (first : Bool)
  | quoted (cs : List Char) (slash : Bool)
  /-- In an item without quotes, and the spaces behind it, which belong to it if more of it follows. -/
  | bare (cs spaces : List Char) (slashed : Bool)
  | bareSlash (cs : List Char)
  | behind
  | closed

def start (c : Char) : Option State :=
  if c = '"' then some (.quoted [] false)
  else if c = '\\' then some (.bareSlash [])
  else if [',', '\x7b', '\x7d'].contains c then none
  else some (.bare [c] [] false)

def stop (c : Char) : Option State :=
  if c = ',' then some (.gap false) else if c = '\x7d' then some .closed else none

def bareItem (cs : List Char) (slashed : Bool) : Item :=
  if !slashed && isNullWord cs then none else some (String.ofList cs)

namespace State

def step : State → Char → Option (List Item × State)
  | .outside, c =>
    if isSpace c then some ([], .outside) else if c = '\x7b' then some ([], .gap true) else none
  | .gap first, c =>
    if isSpace c then some ([], .gap first)
    else if first && c == '\x7d' then some ([], .closed)
    else (start c).map ([], ·)
  | .quoted cs false, c =>
    if c = '\\' then some ([], .quoted cs true)
    else if c = '"' then some ([some (String.ofList cs)], .behind)
    else some ([], .quoted (cs ++ [c]) false)
  | .quoted cs true, c => some ([], .quoted (cs ++ [c]) false)
  | .bare cs spaces slashed, c =>
    if isSpace c then some ([], .bare cs (spaces ++ [c]) slashed)
    else if c = '\\' then some ([], .bareSlash (cs ++ spaces))
    else if c = '"' ∨ c = '\x7b' then none
    else some ((stop c).elim ([], .bare (cs ++ spaces ++ [c]) [] slashed) ([bareItem cs slashed], ·))
  | .bareSlash cs, c => some ([], .bare (cs ++ [c]) [] true)
  | .behind, c => if isSpace c then some ([], .behind) else (stop c).map ([], ·)
  | .closed, c => if isSpace c then some ([], .closed) else none

def flush : State → Option (List Item)
  | .closed => some []
  | _ => none

end State

def scanner : Scanner State Item := ⟨State.step, State.flush⟩

/-- The items of an array of one dimension, as a server reads its text. -/
def read? (text : List Char) : Option (List Item) := scanner.run .outside text

open Scanner (run_of_step run_of_step_nil run_escaped)

def quotedItem (s : String) : List Char := '"' :: escaped s.toList ++ ['"']

theorem step_quoted_plain (acc : List Char) (c : Char) (h : ¬(c = '"' ∨ c = '\\')) :
    scanner.step (.quoted acc false) c = some ([], .quoted (acc ++ [c]) false) := by
  obtain ⟨hq, hb⟩ := not_or.1 h
  exact (if_neg hb).trans (if_neg hq)

theorem run_quoted (cs acc rest : List Char) : scanner.run (.quoted acc false) (escaped cs ++ '"' :: rest) =
    (scanner.run .behind rest).map (some (String.ofList (acc ++ cs)) :: ·) := by
  have hq : scanner.step (.quoted (acc ++ cs) false) '"' = some ([some (String.ofList (acc ++ cs))], .behind) := rfl
  rw [run_escaped (fun _ ↦ rfl) (fun _ _ ↦ rfl) step_quoted_plain]
  exact run_of_step hq

theorem run_quotedItem (first : Bool) (s : String) (rest : List Char) :
    scanner.run (.gap first) (quotedItem s ++ rest) = (scanner.run .behind rest).map (some s :: ·) := by
  have hq : scanner.step (.gap first) '"' = some ([], .quoted [] false) := by cases first <;> rfl
  rw [quotedItem, List.cons_append, List.cons_append, run_of_step_nil hq, List.append_assoc, List.singleton_append,
    run_quoted, List.nil_append, String.ofList_toList]

def written (items : List String) : List Char :=
  '\x7b' :: [',', ' '].intercalate (items.map quotedItem) ++ ['\x7d']

theorem run_items (first : Bool) (s : String) (items : List String) :
    scanner.run (.gap first) ([',', ' '].intercalate ((s :: items).map quotedItem) ++ ['\x7d']) =
      some ((s :: items).map some) := by
  induction items generalizing first s with
  | nil =>
    rw [List.map_singleton, List.intercalate_singleton, run_quotedItem]
    rfl
  | cons t items ih =>
    have hc : scanner.step .behind ',' = some ([], .gap false) := rfl
    have hs : scanner.step (.gap false) ' ' = some ([], .gap false) := rfl
    rw [List.map_cons, List.map_cons, List.intercalate_cons_cons, List.append_assoc, List.append_assoc, run_quotedItem,
      List.cons_append, run_of_step_nil hc, List.singleton_append, run_of_step_nil hs, ← List.map_cons, ih]
    rfl

theorem read?_written (items : List String) : read? (written items) = some (items.map some) := by
  have hb : scanner.step .outside '\x7b' = some ([], .gap true) := rfl
  rw [read?, written, List.cons_append, run_of_step_nil hb]
  cases items with
  | nil => rfl
  | cons s items => exact run_items true s items

def chars (item : Item) : List Char := item.elim [] String.toList

def kept (item : Item) : List Char := escaped (chars item)

/-- The characters of the item that is being read, escaped. -/
def State.held : State → List Char
  | .quoted cs false => escaped cs
  | .quoted cs true | .bareSlash cs => escaped cs ++ ['\\']
  | .bare cs spaces _ => escaped (cs ++ spaces)
  | .outside | .gap _ | .behind | .closed => []

theorem held_bare_nil (cs : List Char) (slashed : Bool) : (State.bare cs [] slashed).held = escaped cs := by
  rw [State.held, List.append_nil]

section

variable {s u : State} {c : Char} {cs : List Char} {items : List Item}

theorem chars_bareItem_sublist (cs : List Char) (slashed : Bool) : (chars (bareItem cs slashed)).Sublist cs := by
  rw [bareItem]
  split_ifs
  · exact List.nil_sublist cs
  · rw [chars, Option.elim_some, String.toList_ofList]

theorem held_start (h : start c = some u) : u.held.Sublist [c] := by
  unfold start at h
  split_ifs at h with hq hb
  · cases h
    exact List.nil_sublist [c]
  · cases h
    rw [hb]
    exact List.Sublist.refl _
  · cases h
    have hc : escaped [c] = [c] := escaped_cons_of_plain (not_or.2 ⟨hq, hb⟩) []
    rw [held_bare_nil, hc]

theorem held_stop (h : stop c = some u) : u.held = [] := by
  unfold stop at h
  split_ifs at h <;> cases h <;> rfl

theorem sublist_of_step (h : s.step c = some (items, u)) : (items.flatMap kept ++ u.held).Sublist (s.held ++ [c]) := by
  cases s with
  | outside | closed =>
    simp only [State.step] at h
    split_ifs at h <;> cases h <;> exact List.nil_sublist _
  | gap first =>
    simp only [State.step] at h
    split_ifs at h
    · cases h
      exact List.nil_sublist _
    · cases h
      exact List.nil_sublist _
    · obtain ⟨u, hu, he⟩ := Option.map_eq_some_iff.1 h
      cases he
      exact held_start hu
  | behind =>
    simp only [State.step] at h
    split_ifs at h
    · cases h
      exact List.nil_sublist _
    · obtain ⟨u, hu, he⟩ := Option.map_eq_some_iff.1 h
      cases he
      rw [held_stop hu]
      exact List.nil_sublist _
  | quoted cs slash =>
    cases slash with
    | true =>
      cases h
      exact escaped_concat_sublist c cs
    | false =>
      simp only [State.step] at h
      split_ifs at h with hb hq
      · cases h
        rw [hb]
        exact List.Sublist.refl _
      · cases h
        have hk : kept (some (String.ofList cs)) = escaped cs := congrArg escaped String.toList_ofList
        rw [List.flatMap_singleton, hk]
        exact List.Sublist.append_left (List.nil_sublist _) _
      · cases h
        exact (escaped_concat_of_plain (not_or.2 ⟨hq, hb⟩) cs) ▸ List.Sublist.refl (escaped cs ++ [c])
  | bareSlash cs =>
    cases h
    rw [held_bare_nil]
    exact escaped_concat_sublist c cs
  | bare cs spaces slashed =>
    have hc {d : Char} (hd : ¬(d = '"' ∨ d = '\\')) : escaped (cs ++ spaces ++ [d]) = escaped (cs ++ spaces) ++ [d] :=
      escaped_concat_of_plain hd _
    simp only [State.step] at h
    split_ifs at h with hs hb hq
    · cases h
      rw [State.held, ← List.append_assoc, hc (plain_of_isSpace hs)]
      exact List.Sublist.refl _
    · cases h
      rw [hb]
      exact List.Sublist.refl _
    · cases hu : stop c with
      | none =>
        rw [hu] at h
        cases h
        rw [held_bare_nil, hc (not_or.2 ⟨fun h ↦ hq (.inl h), hb⟩)]
        exact List.Sublist.refl _
      | some u =>
        rw [hu] at h
        cases h
        have hk : (escaped (chars (bareItem cs slashed))).Sublist (escaped (cs ++ spaces)) :=
          ((chars_bareItem_sublist cs slashed).trans (List.sublist_append_left cs spaces)).flatMap _
        rw [held_stop hu, List.append_nil, List.flatMap_singleton]
        exact hk.trans (List.sublist_append_left _ [c])

theorem relates : scanner.Relates List.Sublist kept State.held where
  step := sublist_of_step
  flush := by
    intro s items h
    cases s with
    | closed =>
      cases h
      exact List.nil_sublist _
    | _ => cases h

theorem sublist_of_read? (h : read? cs = some items) : (items.flatMap kept).Sublist cs :=
  relates.of_run Scanner.additive_sublist h

end

end Upsert.ArrayText
