import Upsert.Proofs.Plan.Arbiter
import Upsert.Proofs.Plan.Parameters
import Upsert.Proofs.Sql.Shape

namespace Upsert

open Sql (Lexeme numbered quotedIn)

variable {t : Target} {layout : Layout} {b : Batch} {st : Statement}

theorem lex_sql (h : t.statement layout b = .ok st) : Sql.Lexer.lex st.sql = some (numbered 0 st.insert.lexemes) :=
  Sql.Insert.lex_eq_numbered (Target.carries_statement h).1

theorem forall₂_alike {i i' : Sql.Insert} (h : i'.shape = i.shape) :
    List.Forall₂ Lexeme.Alike (numbered 0 i.lexemes) (numbered 0 i'.lexemes) := by
  let f : Sql.Renaming := ⟨fun _ ↦ "", fun _ ↦ "", fun _ ↦ .null⟩
  have hl : (numbered 0 i.lexemes).map (Lexeme.rename f) = (numbered 0 i'.lexemes).map (Lexeme.rename f) := by
    rw [Sql.rename_numbered, Sql.rename_numbered, ← i.lexemes_rename, ← i'.lexemes_rename]
    exact congrArg (fun i : Sql.Insert ↦ numbered 0 i.lexemes) h.symm
  exact (forall₂_of_map_eq_map hl).imp fun _ _ ↦ Sql.alike_of_rename f

/-- A statement is read as the lexemes that its syntax prescribes. What they quote are the names and keys of the
statement, each by itself, and statements of one shape differ in nothing else. -/
theorem names_quoted (h : t.statement layout b = .ok st) :
    ∃ lexemes, Sql.Lexer.lex st.sql = some lexemes ∧ lexemes = numbered 0 st.insert.lexemes ∧
      quotedIn lexemes = st.insert.quoted ∧
      ∀ (t' : Target) (layout' : Layout) (b' : Batch) (st' : Statement), t'.statement layout' b' = .ok st' →
        st'.insert.shape = st.insert.shape →
          ∃ lexemes', Sql.Lexer.lex st'.sql = some lexemes' ∧ List.Forall₂ Lexeme.Alike lexemes lexemes' := by
  refine ⟨_, lex_sql h, rfl, ?_, fun t' layout' b' st' h' hs ↦ ⟨_, lex_sql h', forall₂_alike hs⟩⟩
  rw [Sql.quotedIn_numbered, Sql.Insert.quotedIn_lexemes]

theorem names_quoted_breakout :
    let batch (column key : String) : Batch := {
      rows := [⟨[⟨column, .int 1⟩]⟩]
      conflictTarget := some (.keyed [⟨column, key⟩])
      action := .nothing }
    ∃ st st' lexemes lexemes',
      Target.statement ⟨some "a\".\"b", "items\"; $1", ["id"]⟩ ["k\\\""] (batch "k\\\"" "en')\\''") = .ok st ∧
      Target.statement ⟨some "public", "items", ["id"]⟩ ["k"] (batch "k" "en") = .ok st' ∧
      Sql.Lexer.lex st.sql = some lexemes ∧ Sql.Lexer.lex st'.sql = some lexemes' ∧
      quotedIn lexemes = [.name "a\".\"b", .name "items\"; $1", .name "k\\\"", .name "k\\\"", .literal "en')\\''",
        .name "id", .name "k\\\"", .literal "en')\\''", .name "__conflict_key_0"] ∧
      List.Forall₂ Lexeme.Alike lexemes lexemes' := by
  intro batch
  obtain ⟨st, h⟩ : ∃ st, Target.statement ⟨some "a\".\"b", "items\"; $1", ["id"]⟩ ["k\\\""]
    (batch "k\\\"" "en')\\''") = .ok st := ⟨_, rfl⟩
  obtain ⟨st', h'⟩ : ∃ st', Target.statement ⟨some "public", "items", ["id"]⟩ ["k"] (batch "k" "en") = .ok st' :=
    ⟨_, rfl⟩
  obtain ⟨lexemes, hl, -, hq, hs⟩ := names_quoted h
  have hshape : st'.insert.shape = st.insert.shape := by
    cases h
    cases h'
    rfl
  obtain ⟨lexemes', hl', ha⟩ := hs _ _ _ st' h' hshape
  refine ⟨st, st', lexemes, lexemes', h, h', hl, hl', hq.trans ?_, ha⟩
  cases h
  rfl

end Upsert
