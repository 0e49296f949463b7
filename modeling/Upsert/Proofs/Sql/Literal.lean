import Mathlib.Data.List.Induction
import Upsert.Proofs.Literal.Escape
import Upsert.Proofs.Sql.Lexeme

namespace Upsert

namespace Sql

namespace Lexer

variable {mark c : Char} {acc body cs : List Char} {s : String}

theorem run_quoted_mark (mark : Char) (acc cs : List Char) :
    (State.quoted mark acc).run (mark :: cs) = (State.closed mark acc).run cs := by
  apply run_of_extend rfl
  rw [State.extend, if_pos rfl]

theorem run_quoted_of_ne (h : c ≠ mark) (acc cs : List Char) :
    (State.quoted mark acc).run (c :: cs) = (State.quoted mark (acc ++ [c])).run cs := by
  apply run_of_extend rfl
  rw [State.extend, if_neg h]

theorem run_closed_mark (mark : Char) (acc cs : List Char) :
    (State.closed mark acc).run (mark :: cs) = (State.quoted mark (acc ++ [mark])).run cs := by
  apply run_of_extend rfl
  rw [State.extend, if_pos rfl]

theorem run_closed_of_ne (h : c ≠ mark) (acc cs : List Char) : (State.closed mark acc).run (c :: cs) =
    (State.gap.run (c :: cs)).map ([.quoted mark (String.ofList acc)] ++ ·) := by
  apply run_of_break rfl _ rfl
  rw [State.extend, if_neg h]

theorem ne_nil_of_run_quote {u : State} {ls : List Lexeme} (h : u.run (cs ++ ['\'']) = some ls) : ls ≠ [] := by
  induction cs generalizing u ls with
  | nil =>
    rw [List.nil_append] at h
    cases u with
    | gap | word cs | operator cs => cases h
    | parameter digits => cases digits <;> cases h
    | quoted mark cs =>
      by_cases hm : '\'' = mark
      · subst hm
        cases h
        exact List.cons_ne_nil _ _
      · rw [run_quoted_of_ne hm] at h
        cases h
    | closed mark cs =>
      by_cases hm : '\'' = mark
      · subst hm
        rw [run_closed_mark] at h
        cases h
      · rw [run_closed_of_ne hm] at h
        cases h
  | cons c cs ih =>
    obtain ⟨⟨begun, u'⟩, -, h⟩ := Option.bind_eq_some_iff.1 h
    obtain ⟨rest, hr, rfl⟩ := Option.map_eq_some_iff.1 h
    exact List.append_ne_nil_of_right_ne_nil _ (ih hr)

theorem eq_doubled_of_run (h : (State.quoted '\'' acc).run (body ++ ['\'']) = some [.literal s]) :
    ∃ cs, body = Text.doubled '\'' cs ∧ s.toList = acc ++ cs := by
  induction body using List.twoStepInduction generalizing acc with
  | nil =>
    cases h
    exact ⟨[], rfl, by simp⟩
  | singleton c =>
    by_cases hc : c = '\''
    · subst hc
      cases h
    · rw [List.singleton_append, run_quoted_of_ne hc] at h
      cases h
      exact ⟨[c], (Text.doubled_cons_of_ne hc []).symm, by simp⟩
  | cons_cons c d body ih ihd =>
    rw [List.cons_append] at h
    by_cases hc : c = '\''
    · subst hc
      rw [run_quoted_mark, List.cons_append] at h
      by_cases hd : d = '\''
      · subst hd
        rw [run_closed_mark] at h
        obtain ⟨cs, rfl, hs⟩ := ih h
        exact ⟨'\'' :: cs, (Text.doubled_cons_mark _ _).symm, by simp [hs]⟩
      · -- The literal ends here, and the quote mark at the end belongs to a second token.
        rw [run_closed_of_ne hd] at h
        obtain ⟨rest, hr, he⟩ := Option.map_eq_some_iff.1 h
        rw [← List.cons_append] at hr
        exact absurd (List.cons.inj he).2 (ne_nil_of_run_quote hr)
    · rw [run_quoted_of_ne hc] at h
      obtain ⟨cs, hb, hs⟩ := ihd d h
      exact ⟨c :: cs, by rw [hb, Text.doubled_cons_of_ne hc], by simp [hs]⟩

end Lexer

/-- The text is one literal of this content. -/
def IsLiteral (text content : String) : Prop := Lexer.lex text = some [.literal content]

theorem isLiteral_iff {text content : String} {body : List Char} (h : text.toList = '\'' :: body ++ ['\'']) :
    IsLiteral text content ↔ body = Text.doubled '\'' content.toList := by
  have hr : Lexer.lex text = (Lexer.State.quoted '\'' []).run (body ++ ['\'']) := by
    have hs : Lexer.start '\'' = some ([], .quoted '\'' []) := rfl
    rw [Lexer.lex, h, List.cons_append, Lexer.run_of_start hs]
    exact Option.map_id'
  rw [IsLiteral, hr]
  constructor
  · intro hl
    obtain ⟨cs, hb, hs⟩ := Lexer.eq_doubled_of_run hl
    rw [hb, hs, List.nil_append]
  · intro hb
    rw [hb, Lexer.run_quoted, List.nil_append]
    exact congrArg (fun t ↦ some [Lexeme.literal t]) String.ofList_toList

end Sql

end Upsert
