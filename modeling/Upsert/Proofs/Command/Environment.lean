import Upsert.Command.Environment
import Upsert.Proofs.Text.Dictionary
import Upsert.Proofs.Text.Lines

namespace Upsert.Environment

open Text (isBlank lines trimmed)

variable {line front back cs : List Char} {number : ℕ} {name value : String} {env : Environment}

def Ignored (line : List Char) : Prop := trimmed line = [] ∨ (trimmed line).head? = some '#'

structure Broken (line : List Char) : Prop where
  read : ¬Ignored line
  nameless : '=' ∉ line ∨ ∃ front back, line = front ++ '=' :: back ∧ ∀ c ∈ front, isBlank c

/-- One pair of quotes around a value is no part of it. -/
inductive Unquotes : List Char → List Char → Prop
  | quoted {mark : Char} (h : mark = '"' ∨ mark = '\'') (cs : List Char) : Unquotes (mark :: cs ++ [mark]) cs
  | bare {cs : List Char} (h : ∀ mark inner, mark = '"' ∨ mark = '\'' → cs ≠ mark :: inner ++ [mark]) : Unquotes cs cs

structure Assigns (line : List Char) (name value : String) : Prop where
  read : ¬Ignored line
  parts : ∃ front back, line = front ++ '=' :: back ∧ '=' ∉ front ∧ name.toList = trimmed front ∧ name ≠ "" ∧
    Unquotes (trimmed back) value.toList

def fault (line : List Char) (number : ℕ) : EnvironmentError :=
  if '=' ∈ line then .emptyKey number else .malformed number

theorem unquotes_unquoted (cs : List Char) : Unquotes cs (unquoted cs) := by
  unfold unquoted
  cases cs with
  | nil =>
    apply Unquotes.bare
    intro mark inner _ h
    cases h
  | cons mark rest =>
    dsimp only
    split_ifs with h
    · obtain ⟨hm, hl⟩ := h
      obtain ⟨inner, rfl⟩ := List.getLast?_eq_some_iff.1 hl
      rw [List.dropLast_concat]
      exact .quoted hm inner
    · apply Unquotes.bare
      intro mark' inner hm he
      rw [List.cons_append] at he
      obtain ⟨rfl, rfl⟩ := List.cons.inj he
      exact h ⟨hm, List.getLast?_concat⟩

theorem Unquotes.eq_unquoted {v w : List Char} (h : Unquotes v w) : w = unquoted v := by
  cases h with
  | quoted hm =>
    rw [List.cons_append, unquoted, if_pos ⟨hm, List.getLast?_concat⟩, List.dropLast_concat]
  | bare h =>
    have hu := unquotes_unquoted v
    generalize unquoted v = u at hu
    cases hu with
    | quoted hm => exact absurd rfl (h _ _ hm)
    | bare _ => rfl

theorem not_isBlank_sign : isBlank '=' = false := by decide

theorem sign_notMem (h : ∀ c ∈ front, isBlank c) : '=' ∉ front := by
  intro hs
  have hb := h '=' hs
  rw [not_isBlank_sign] at hb
  cases hb

theorem Assigns.not_broken (h : Assigns line name value) : ¬Broken line := by
  intro hb
  obtain ⟨front, back, hl, hf, hn, hne, -⟩ := h.parts
  obtain hs | ⟨front', back', hl', hf'⟩ := hb.nameless
  · exact hs (hl ▸ List.mem_append_right front List.mem_cons_self)
  · obtain ⟨rfl, -⟩ := Text.eq_of_append_mark hf (sign_notMem hf') (hl.symm.trans hl')
    rw [Text.trimmed_eq_nil_iff.2 hf', String.toList_eq_nil_iff] at hn
    exact hne hn

theorem Assigns.unique {name' value' : String} (h : Assigns line name value) (h' : Assigns line name' value') :
    name = name' ∧ value = value' := by
  obtain ⟨front, back, hl, hf, hn, -, hv⟩ := h.parts
  obtain ⟨front', back', hl', hf', hn', -, hv'⟩ := h'.parts
  obtain ⟨rfl, rfl⟩ := Text.eq_of_append_mark hf hf' (hl.symm.trans hl')
  constructor
  · exact String.toList_injective (hn.trans hn'.symm)
  · exact String.toList_injective (hv.eq_unquoted.trans hv'.eq_unquoted.symm)

theorem assignment?_cases (number : ℕ) (line : List Char) :
    (Ignored line ∧ assignment? number line = .ok none) ∨
    (Broken line ∧ assignment? number line = .error (fault line number)) ∨
    ∃ name value, Assigns line name value ∧ assignment? number line = .ok (some (name, value)) := by
  obtain ⟨before, behind, hb, hb', -, hl⟩ := Text.exists_trimmed line
  unfold assignment?
  split
  · next h => exact .inl ⟨.inl h, rfl⟩
  · next h => exact .inl ⟨.inr (by rw [h]; rfl), rfl⟩
  · next hnil hhash =>
    right
    have hi : ¬Ignored line := by
      intro h
      obtain h | h := h
      · exact hnil h
      · obtain ⟨rest, h⟩ := List.head?_eq_some_iff.1 h
        exact hhash rest h
    by_cases hs : '=' ∈ trimmed line
    · obtain ⟨front, back, ht, hf⟩ := List.eq_append_cons_of_mem hs
      have he : line = (before ++ front) ++ '=' :: (back ++ behind) := by
        nth_rewrite 1 [hl]
        rw [ht]
        simp
      have hf' : '=' ∉ before ++ front := by simp [hf, sign_notMem hb]
      have htf : trimmed (before ++ front) = trimmed front := Text.trimmed_append_left hb
      have htb : trimmed (back ++ behind) = trimmed back := Text.trimmed_append_right hb'
      rw [ht, Text.cutOnce_append hf]
      dsimp only
      split
      · next hn =>
        left
        refine ⟨⟨hi, .inr ⟨_, _, he, Text.trimmed_eq_nil_iff.1 (htf.trans hn)⟩⟩, ?_⟩
        rw [fault, if_pos (he ▸ List.mem_append_right _ List.mem_cons_self)]
      · next hn =>
        right
        refine ⟨_, _, ⟨hi, _, _, he, hf', ?_, ?_, ?_⟩, rfl⟩
        · rw [String.toList_ofList, htf]
        · intro h
          exact hn (String.ofList_injective h)
        · rw [String.toList_ofList, htb]
          exact unquotes_unquoted _
    · left
      have hs' : '=' ∉ line := by
        rw [hl]
        simp [hs, sign_notMem hb, sign_notMem hb']
      rw [Text.cutOnce_of_notMem hs, fault, if_neg hs']
      exact ⟨⟨hi, .inl hs'⟩, rfl⟩

def LastAssigns (lines : List (List Char)) (name value : String) : Prop :=
  ∃ before line behind, lines = before ++ line :: behind ∧ Assigns line name value ∧
    ∀ l ∈ behind, ∀ v, ¬Assigns l name v

theorem lastAssigns_cons {lines : List (List Char)} : LastAssigns (line :: lines) name value ↔
    LastAssigns lines name value ∨ Assigns line name value ∧ ∀ l ∈ lines, ∀ v, ¬Assigns l name v := by
  constructor
  · intro ⟨before, l, behind, he, ha, hn⟩
    cases before with
    | nil =>
      cases he
      exact .inr ⟨ha, hn⟩
    | cons _ before =>
      cases he
      exact .inl ⟨before, l, behind, rfl, ha, hn⟩
  · intro h
    obtain ⟨before, l, behind, rfl, ha, hn⟩ | ⟨ha, hn⟩ := h
    · exact ⟨line :: before, l, behind, rfl, ha, hn⟩
    · exact ⟨[], line, lines, rfl, ha, hn⟩

/-- The error reports the first broken line, where the first line has the number. -/
def FirstBroken (lines : List (List Char)) (number : ℕ) (e : EnvironmentError) : Prop :=
  ∃ before line behind, lines = before ++ line :: behind ∧ (∀ l ∈ before, ¬Broken l) ∧ Broken line ∧
    e = fault line (number + before.length)

theorem firstBroken_cons {lines : List (List Char)} {e : EnvironmentError} : FirstBroken (line :: lines) number e ↔
    Broken line ∧ e = fault line number ∨ ¬Broken line ∧ FirstBroken lines (number + 1) e := by
  constructor
  · intro ⟨before, l, behind, he, hn, hl, hf⟩
    cases before with
    | nil =>
      cases he
      exact .inl ⟨hl, hf⟩
    | cons _ before =>
      cases he
      obtain ⟨hb, hn⟩ := List.forall_mem_cons.1 hn
      refine .inr ⟨hb, before, l, behind, rfl, hn, hl, ?_⟩
      rw [hf, List.length_cons, Nat.add_assoc, Nat.add_comm 1]
  · intro h
    obtain ⟨hl, hf⟩ | ⟨hb, before, l, behind, rfl, hn, hl, hf⟩ := h
    · exact ⟨[], line, lines, rfl, List.forall_mem_nil _, hl, hf⟩
    · refine ⟨line :: before, l, behind, rfl, List.forall_mem_cons.2 ⟨hb, hn⟩, hl, ?_⟩
      rw [hf, List.length_cons, Nat.add_assoc, Nat.add_comm 1]

theorem get?_set (env : Environment) (n v name : String) :
    (env.set n v).get? name = if name = n then some v else env.get? name := lookup_cons_eq_ite (n, v) name

variable {ls ls' : List (List Char)} {e : EnvironmentError}

theorem setLines_of_ignored (h : Ignored line) (env : Environment) (number : ℕ) (ls : List (List Char)) :
    env.setLines number (line :: ls) = env.setLines (number + 1) ls := by
  obtain ⟨-, hl⟩ | ⟨hb, -⟩ | ⟨_, _, ha, -⟩ := assignment?_cases number line
  · rw [setLines, hl]
  · exact absurd h hb.read
  · exact absurd h ha.read

theorem setLines_of_broken (h : Broken line) (env : Environment) (number : ℕ) (ls : List (List Char)) :
    env.setLines number (line :: ls) = (env, .error (fault line number)) := by
  obtain ⟨hi, -⟩ | ⟨-, hl⟩ | ⟨_, _, ha, -⟩ := assignment?_cases number line
  · exact absurd hi h.read
  · rw [setLines, hl]
  · exact absurd h ha.not_broken

theorem setLines_of_assigns (h : Assigns line name value) (env : Environment) (number : ℕ) (ls : List (List Char)) :
    env.setLines number (line :: ls) = (env.set name value).setLines (number + 1) ls := by
  obtain ⟨hi, -⟩ | ⟨hb, -⟩ | ⟨_, _, ha, hl⟩ := assignment?_cases number line
  · exact absurd hi h.read
  · exact absurd hb h.not_broken
  · obtain ⟨rfl, rfl⟩ := h.unique ha
    rw [setLines, hl]

theorem line_cases (line : List Char) : Ignored line ∨ Broken line ∨ ∃ name value, Assigns line name value := by
  obtain ⟨h, -⟩ | ⟨h, -⟩ | ⟨name, value, h, -⟩ := assignment?_cases 0 line
  · exact .inl h
  · exact .inr (.inl h)
  · exact .inr (.inr ⟨name, value, h⟩)

theorem setLines_eq_error_iff : (env.setLines number ls).2 = .error e ↔ FirstBroken ls number e := by
  induction ls generalizing env number with
  | nil =>
    constructor
    · intro h
      cases h
    · intro ⟨before, _, _, he, _⟩
      cases before <;> cases he
  | cons l ls ih =>
    rw [firstBroken_cons]
    obtain h | h | ⟨name, value, h⟩ := line_cases l
    · have hb : ¬Broken l := fun hb ↦ hb.read h
      rw [setLines_of_ignored h, ih]
      simp [hb]
    · rw [setLines_of_broken h]
      simp [h, eq_comm]
    · rw [setLines_of_assigns h, ih]
      simp [h.not_broken]

theorem get?_setLines (h : (env.setLines number ls).2 = .ok ()) : (env.setLines number ls).1.get? name = some value ↔
    LastAssigns ls name value ∨ (∀ l ∈ ls, ∀ v, ¬Assigns l name v) ∧ env.get? name = some value := by
  induction ls generalizing env number with
  | nil =>
    simp [setLines, LastAssigns]
  | cons l ls ih =>
    rw [lastAssigns_cons, List.forall_mem_cons]
    obtain hl | hl | ⟨n, v, hl⟩ := line_cases l
    · have ha (v : String) : ¬Assigns l name v := fun ha ↦ ha.read hl
      rw [setLines_of_ignored hl] at h ⊢
      simp [ih h, ha]
    · rw [setLines_of_broken hl] at h
      cases h
    · rw [setLines_of_assigns hl] at h ⊢
      rw [ih h, get?_set]
      by_cases hn : name = n
      · subst hn
        have hv (w : String) : Assigns l name w ↔ v = w := ⟨fun ha ↦ (hl.unique ha).2, fun he ↦ he ▸ hl⟩
        simp [hv, and_comm]
      · have ha (w : String) : ¬Assigns l name w := fun ha ↦ hn (ha.unique hl).1
        simp [hn, ha]

theorem setLines_append {env' : Environment} (h : env.setLines number ls = (env', .ok ())) :
    env.setLines number (ls ++ ls') = env'.setLines (number + ls.length) ls' := by
  induction ls generalizing env number with
  | nil =>
    cases h
    rfl
  | cons l ls ih =>
    rw [List.length_cons, Nat.add_comm ls.length, ← Nat.add_assoc, List.cons_append]
    obtain hl | hl | ⟨n, v, hl⟩ := line_cases l
    · rw [setLines_of_ignored hl] at h ⊢
      exact ih h
    · rw [setLines_of_broken hl] at h
      cases h
    · rw [setLines_of_assigns hl] at h ⊢
      exact ih h

theorem assignment?_withoutReturn (number : ℕ) (piece : List Char) :
    assignment? number (Text.withoutReturn piece) = assignment? number piece := by
  rw [Text.withoutReturn]
  split_ifs with h
  · obtain ⟨cs, rfl⟩ := List.getLast?_eq_some_iff.1 h
    have hb : ∀ c ∈ ['\r'], isBlank c := List.forall_mem_singleton.2 (by decide)
    rw [List.dropLast_concat, assignment?, assignment?, Text.trimmed_append_right hb]
  · rfl

theorem setLines_ended (env : Environment) (number : ℕ) (pieces : List (List Char)) :
    env.setLines number (Text.ended pieces) = env.setLines number pieces := by
  induction pieces generalizing env number with
  | nil => rfl
  | cons piece pieces ih =>
    cases pieces with
    | nil =>
      rw [Text.ended]
      split_ifs with h
      · rw [h]
        rfl
      · rfl
    | cons next pieces =>
      rw [Text.ended, setLines, setLines, assignment?_withoutReturn]
      simp only [ih]
      · simp

theorem load_eq (env : Environment) (text : String) : env.load text = env.setLines 1 (lines text.toList) :=
  (setLines_ended env 1 _).symm

structure Settable (name : String) : Prop where
  trimmed : trimmed name.toList = name.toList
  ne_empty : name ≠ ""
  sign : '=' ∉ name.toList
  feed : '\n' ∉ name.toList
  comment : name.toList.head? ≠ some '#'

def quotedLine (name value : String) : List Char := name.toList ++ '=' :: '"' :: value.toList ++ ['"']

theorem assigns_quotedLine (h : Settable name) (value : String) : Assigns (quotedLine name value) name value := by
  have hq : isBlank '"' = false := by decide
  have hb : trimmed ('"' :: value.toList ++ ['"']) = '"' :: value.toList ++ ['"'] := Text.trimmed_of_ends hq hq _
  obtain ⟨c, cs, hn⟩ := List.exists_cons_of_ne_nil (mt String.toList_eq_nil_iff.1 h.ne_empty)
  have hc : isBlank c = false := by
    have hh : c ∈ (trimmed name.toList).head? := by
      rw [h.trimmed, hn]
      rfl
    exact Text.isBlank_of_head?_trimmed hh
  have hl : quotedLine name value = c :: (cs ++ '=' :: '"' :: value.toList) ++ ['"'] := by simp [quotedLine, hn]
  constructor
  · rw [Ignored, hl, Text.trimmed_of_ends hc hq]
    intro hi
    obtain hi | hi := hi
    · cases hi
    · exact h.comment (hn ▸ hi)
  · refine ⟨name.toList, '"' :: value.toList ++ ['"'], ?_, h.sign, h.trimmed.symm, h.ne_empty, ?_⟩
    · rw [quotedLine, List.append_assoc, List.cons_append]
    · rw [hb]
      exact .quoted (.inl rfl) value.toList

variable {text ending : String}

theorem lines_quotedLine (h : Settable name) (hv : '\n' ∉ value.toList) (hf : text = "" ∨ ∃ cs, text.toList = cs ++ ['\n'])
    (he : ending ∈ ["", "\n", "\r\n"]) :
    lines (text ++ name ++ "=\"" ++ value ++ "\"" ++ ending).toList = lines text.toList ++ [quotedLine name value] := by
  have hl : lines (quotedLine name value ++ ending.toList) = [quotedLine name value] := by
    apply Text.lines_of_line
    · simp [quotedLine, h.feed, hv]
    · simp [quotedLine]
    · rw [quotedLine, List.getLast?_concat]
      simp
    · simp only [List.mem_cons, List.not_mem_nil, or_false] at he
      obtain rfl | rfl | rfl := he <;> simp
  have ht : (text ++ name ++ "=\"" ++ value ++ "\"" ++ ending).toList =
      text.toList ++ (quotedLine name value ++ ending.toList) := by
    simp [quotedLine]
  rw [ht]
  obtain rfl | ⟨cs, hcs⟩ := hf
  · exact hl
  · rw [hcs, List.append_assoc, List.singleton_append, Text.lines_append_feed, hl]

theorem load_quoted (h : Settable name) (hv : '\n' ∉ value.toList) (hf : text = "" ∨ ∃ cs, text.toList = cs ++ ['\n'])
    (he : ending ∈ ["", "\n", "\r\n"]) {env' : Environment} (hl : env.load text = (env', .ok ())) :
    env.load (text ++ name ++ "=\"" ++ value ++ "\"" ++ ending) = (env'.set name value, .ok ()) := by
  rw [load_eq] at hl
  rw [load_eq, lines_quotedLine h hv hf he, setLines_append hl, setLines_of_assigns (assigns_quotedLine h value)]
  rfl

/--
A file is refused at its first broken line, and otherwise sets each variable to what the last of its assignments says
and leaves the others as they were. A value between double quotes on the last line is read as it was written.
-/
theorem load_last_wins (env : Environment) (text : String) :
    (∀ e, (env.load text).2 = .error e ↔ FirstBroken (lines text.toList) 1 e) ∧
    ((env.load text).2 = .ok () → ∀ name value, (env.load text).1.get? name = some value ↔
      LastAssigns (lines text.toList) name value ∨
        (∀ line ∈ lines text.toList, ∀ v, ¬Assigns line name v) ∧ env.get? name = some value) ∧
    ∀ name value ending, Settable name → '\n' ∉ value.toList → (text = "" ∨ ∃ cs, text.toList = cs ++ ['\n']) →
      ending ∈ ["", "\n", "\r\n"] → (env.load text).2 = .ok () →
        (env.load (text ++ name ++ "=\"" ++ value ++ "\"" ++ ending)).2 = .ok () ∧
        (env.load (text ++ name ++ "=\"" ++ value ++ "\"" ++ ending)).1.get? name = some value := by
  refine ⟨?_, ?_, ?_⟩
  · intro e
    rw [load_eq]
    exact setLines_eq_error_iff
  · intro h name value
    rw [load_eq] at h ⊢
    exact get?_setLines h
  · intro name value ending hn hv hf he h
    rw [load_quoted hn hv hf he (Prod.ext rfl h), get?_set, if_pos rfl]
    exact ⟨rfl, rfl⟩

theorem load_last_wins_over_earlier :
    (load [("KEY", "a")] "KEY = b\n").2 = .ok () ∧
    (load [("KEY", "a")] ("KEY = b\n" ++ "KEY" ++ "=\"" ++ "'c' = \"d\"" ++ "\"" ++ "")).1.get? "KEY" =
      some "'c' = \"d\"" := by
  have hn : Settable "KEY" := ⟨by decide, by decide, by decide, by decide, by decide⟩
  have hf : ∃ cs, "KEY = b\n".toList = cs ++ ['\n'] := ⟨"KEY = b".toList, by decide⟩
  have hl : (load [("KEY", "a")] "KEY = b\n").2 = .ok () := by decide
  obtain ⟨-, -, hq⟩ := load_last_wins [("KEY", "a")] "KEY = b\n"
  exact ⟨hl, (hq "KEY" "'c' = \"d\"" "" hn (by decide) (.inr hf) (by decide) hl).2⟩

end Upsert.Environment
