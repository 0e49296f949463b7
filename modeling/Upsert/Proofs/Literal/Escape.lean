import Mathlib.Tactic.SplitIfs
import Upsert.Text.Basic

namespace Upsert

namespace Text

variable {mark c : Char} {cs : List Char}

theorem doubled_cons_mark (mark : Char) (cs : List Char) :
    doubled mark (mark :: cs) = mark :: mark :: doubled mark cs := by
  simp [doubled]

theorem doubled_cons_of_ne (h : c ≠ mark) (cs : List Char) : doubled mark (c :: cs) = c :: doubled mark cs := by
  simp [doubled, h]

theorem doubled_append (mark : Char) (front back : List Char) :
    doubled mark (front ++ back) = doubled mark front ++ doubled mark back := List.flatMap_append

theorem count_doubled (mark c : Char) (cs : List Char) :
    (doubled mark cs).count c = (if c = mark then 2 else 1) * cs.count c := by
  induction cs with
  | nil => rfl
  | cons d cs ih =>
    by_cases hd : d = mark
    · subst hd
      rw [doubled_cons_mark]
      by_cases hc : c = d
      · subst hc
        rw [if_pos rfl] at ih ⊢
        rw [List.count_cons_self, List.count_cons_self, List.count_cons_self, ih]
        omega
      · have hn : d ≠ c := Ne.symm hc
        rw [List.count_cons_of_ne hn, List.count_cons_of_ne hn, List.count_cons_of_ne hn, ih]
    · rw [doubled_cons_of_ne hd]
      by_cases hc : c = d
      · subst hc
        rw [if_neg hd] at ih ⊢
        rw [List.count_cons_self, List.count_cons_self, ih]
        omega
      · have hn : d ≠ c := Ne.symm hc
        rw [List.count_cons_of_ne hn, List.count_cons_of_ne hn, ih]

theorem doubled_of_notMem (h : mark ∉ cs) : doubled mark cs = cs := by
  induction cs with
  | nil => rfl
  | cons c cs ih =>
    obtain ⟨hc, hcs⟩ := not_or.1 (mt List.mem_cons.2 h)
    rw [doubled_cons_of_ne (Ne.symm hc), ih hcs]

end Text

namespace Literal

variable {c : Char} {cs : List Char}

def isSpace (c : Char) : Bool := [' ', '\t', '\n', '\x0b', '\x0c', '\r'].contains c

def isNullWord (cs : List Char) : Bool := cs.map Char.toLower == ['n', 'u', 'l', 'l']

/-- Between quotes, a backslash stands before each quote mark and each backslash. -/
def escaped (cs : List Char) : List Char := cs.flatMap fun c ↦ if c = '"' ∨ c = '\\' then ['\\', c] else [c]

theorem escaped_append (front back : List Char) : escaped (front ++ back) = escaped front ++ escaped back :=
  List.flatMap_append

theorem escaped_cons_of_mark (h : c = '"' ∨ c = '\\') (cs : List Char) :
    escaped (c :: cs) = '\\' :: c :: escaped cs := by
  rw [escaped, List.flatMap_cons, if_pos h]
  rfl

theorem escaped_cons_of_plain (h : ¬(c = '"' ∨ c = '\\')) (cs : List Char) : escaped (c :: cs) = c :: escaped cs := by
  rw [escaped, List.flatMap_cons, if_neg h]
  rfl

theorem plain_of_isSpace (h : isSpace c) : ¬(c = '"' ∨ c = '\\') := by
  intro hc
  obtain rfl | rfl := hc <;> cases h

theorem escaped_flatMap {α : Type} (as : List α) (f : α → List Char) :
    escaped (as.flatMap f) = as.flatMap fun a ↦ escaped (f a) := List.flatMap_assoc

theorem escaped_concat_of_plain (h : ¬(c = '"' ∨ c = '\\')) (cs : List Char) :
    escaped (cs ++ [c]) = escaped cs ++ [c] := by
  rw [escaped_append, escaped_cons_of_plain h]
  rfl

theorem escaped_concat_sublist (c : Char) (cs : List Char) :
    (escaped (cs ++ [c])).Sublist (escaped cs ++ ['\\'] ++ [c]) := by
  rw [escaped_append, List.append_assoc]
  apply List.Sublist.append_left
  by_cases h : c = '"' ∨ c = '\\'
  · rw [escaped_cons_of_mark h]
    exact List.Sublist.refl _
  · rw [escaped_cons_of_plain h]
    exact List.sublist_cons_self _ _

theorem count_backslash_escaped (cs : List Char) : (escaped cs).count '\\' = 2 * cs.count '\\' + cs.count '"' := by
  induction cs with
  | nil => rfl
  | cons c cs ih =>
    by_cases h : c = '"' ∨ c = '\\'
    · rw [escaped_cons_of_mark h, List.count_cons_self, List.count_cons, List.count_cons, List.count_cons, ih]
      obtain rfl | rfl := h
      · simp
        omega
      · simp
        omega
    · obtain ⟨hq, hb⟩ := not_or.1 h
      rw [escaped_cons_of_plain h, List.count_cons_of_ne hb, List.count_cons_of_ne hb, List.count_cons_of_ne hq, ih]

theorem count_escaped_of_ne (h : c ≠ '\\') (cs : List Char) : (escaped cs).count c = cs.count c := by
  induction cs with
  | nil => rfl
  | cons d cs ih =>
    by_cases hd : d = '"' ∨ d = '\\'
    · rw [escaped_cons_of_mark hd, List.count_cons_of_ne h.symm, List.count_cons, List.count_cons, ih]
    · rw [escaped_cons_of_plain hd, List.count_cons, List.count_cons, ih]

theorem escaped_of_notMem (hq : '"' ∉ cs) (hb : '\\' ∉ cs) : escaped cs = cs := by
  induction cs with
  | nil => rfl
  | cons c cs ih =>
    obtain ⟨hqc, hqcs⟩ := not_or.1 (mt List.mem_cons.2 hq)
    obtain ⟨hbc, hbcs⟩ := not_or.1 (mt List.mem_cons.2 hb)
    rw [escaped_cons_of_plain (not_or.2 ⟨Ne.symm hqc, Ne.symm hbc⟩), ih hqcs hbcs]

theorem count_flatMap_congr {α : Type} {as : List α} {f g : α → List Char}
    (h : ∀ a ∈ as, (f a).count c = (g a).count c) : (as.flatMap f).count c = (as.flatMap g).count c := by
  rw [List.count_flatMap, List.count_flatMap]
  exact congrArg List.sum (List.map_congr_left h)

theorem count_intercalate (c : Char) (separator : List Char) (parts : List (List Char)) :
    (separator.intercalate parts).count c = parts.flatten.count c + (parts.length - 1) * separator.count c := by
  induction parts with
  | nil => simp [List.intercalate]
  | cons part parts ih =>
    cases parts with
    | nil => simp
    | cons next parts =>
      have hf : (part :: next :: parts).flatten = part ++ (next :: parts).flatten := rfl
      have hl : (part :: next :: parts).length - 1 = (next :: parts).length - 1 + 1 := rfl
      rw [List.intercalate_cons_cons, List.count_append, List.count_append, ih, hf, List.count_append, hl, Nat.add_mul]
      omega

end Literal

end Upsert
