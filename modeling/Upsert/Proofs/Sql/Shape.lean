import Upsert.Proofs.Sql.Grammar

namespace Upsert.Sql

namespace Lexeme

def isQuoted : Lexeme → Bool
  | .name _ | .literal _ => true
  | _ => false

end Lexeme

def Term.quoted : Term → List Lexeme
  | .column qualifier name => (qualifier.toList ++ [name]).map .name
  | .excluded name => [.name name]
  | .value _ | .verbatim _ => []
  | .key e k => e.quoted ++ [.literal k]
  | .binary _ lhs rhs => lhs.quoted ++ rhs.quoted
  | .not e | .isNull e | .isNotNull e => e.quoted
  | .labelled e name => e.quoted ++ [.name name]

def Arbiter.quoted : Arbiter → List Lexeme
  | .index terms predicate => terms.flatMap Term.quoted ++ predicate.toList.flatMap Term.quoted
  | .constraint name => [.name name]

def Setting.quoted (s : Setting) : List Lexeme := .name s.column :: s.value.quoted

def Reaction.quoted : Reaction → List Lexeme
  | .nothing => []
  | .update settings condition => settings.flatMap Setting.quoted ++ condition.toList.flatMap Term.quoted

def OnConflict.quoted (c : OnConflict) : List Lexeme := c.arbiter.elim [] Arbiter.quoted ++ c.reaction.quoted

def TableName.quoted (n : TableName) : List Lexeme := (n.schema.toList ++ [n.name]).map .name

def Insert.quoted (i : Insert) : List Lexeme :=
  i.table.quoted ++ (i.columns.map .name ++ (i.rows.flatten.flatMap Term.quoted ++
    (i.onConflict.elim [] OnConflict.quoted ++ i.returning.flatMap Term.quoted)))

def quotedIn (ls : List Lexeme) : List Lexeme := ls.filter Lexeme.isQuoted

@[simp] theorem quotedIn_append (ls ls' : List Lexeme) : quotedIn (ls ++ ls') = quotedIn ls ++ quotedIn ls' :=
  List.filter_append ..

theorem quotedIn_cons_of_not {l : Lexeme} (h : l.isQuoted = false) (ls : List Lexeme) :
    quotedIn (l :: ls) = quotedIn ls := List.filter_cons_of_neg (by simp [h])

@[simp] theorem quotedIn_enclosed (ls : List Lexeme) : quotedIn (enclosed ls) = quotedIn ls := by
  rw [enclosed, List.cons_append, quotedIn_cons_of_not rfl, quotedIn_append]
  exact List.append_nil _

@[simp] theorem quotedIn_listed (lists : List (List Lexeme)) : quotedIn (listed lists) = lists.flatMap quotedIn := by
  induction lists with
  | nil => rfl
  | cons as lists ih =>
    cases lists with
    | nil => simp [listed, List.intercalate]
    | cons bs lists =>
      rw [listed_cons_cons, quotedIn_append, quotedIn_cons_of_not rfl, ih]
      rfl

@[simp] theorem quotedIn_bracketed (lists : List (List Lexeme)) :
    quotedIn (bracketed lists) = lists.flatMap quotedIn := (quotedIn_enclosed _).trans (quotedIn_listed lists)

theorem quotedIn_operator (op : Operator) : quotedIn op.lexemes = [] := by
  cases op with
  | comparison op => cases op <;> rfl
  | and => rfl
  | or => rfl

theorem isQuoted_bare (s : String) : (Lexeme.bare s).isQuoted = false := by
  unfold Lexeme.bare
  split <;> rfl

theorem Term.quotedIn_lexemes (e : Term) : quotedIn e.lexemes = e.quoted := by
  induction e with
  | column qualifier name => cases qualifier <;> rfl
  | excluded name => rfl
  | value v => rfl
  | verbatim s => exact quotedIn_cons_of_not (isQuoted_bare s) []
  | key e k ih =>
    rw [lexemes, quotedIn_enclosed, quotedIn_append, ih]
    rfl
  | binary op lhs rhs ihl ihr =>
    rw [lexemes, quotedIn_enclosed, quotedIn_append, quotedIn_append, ihl, ihr, quotedIn_operator, List.append_nil]
    rfl
  | not e ih => rw [lexemes, quotedIn_enclosed, quotedIn_cons_of_not rfl, ih, quoted]
  | isNull e ih =>
    rw [lexemes, quotedIn_enclosed, quotedIn_append, ih]
    exact List.append_nil _
  | isNotNull e ih =>
    rw [lexemes, quotedIn_enclosed, quotedIn_append, ih]
    exact List.append_nil _
  | labelled e name ih =>
    rw [lexemes, quotedIn_append, ih]
    rfl

theorem flatMap_quotedIn (es : List Term) : (es.map Term.lexemes).flatMap quotedIn = es.flatMap Term.quoted := by
  rw [List.flatMap_map]
  exact congrArg (es.flatMap ·) (funext Term.quotedIn_lexemes)

theorem quotedIn_whereLexemes (condition : Option Term) :
    quotedIn (whereLexemes condition) = condition.toList.flatMap Term.quoted := by
  cases condition with
  | none => rfl
  | some e =>
    rw [whereLexemes, Option.elim_some, quotedIn_cons_of_not rfl, e.quotedIn_lexemes]
    simp

theorem Arbiter.quotedIn_lexemes (a : Arbiter) : quotedIn a.lexemes = a.quoted := by
  cases a with
  | index terms predicate =>
    rw [lexemes, quotedIn_append, quotedIn_bracketed, flatMap_quotedIn, quotedIn_whereLexemes, quoted]
  | constraint name => rfl

theorem Setting.quotedIn_lexemes (s : Setting) : quotedIn s.lexemes = s.quoted :=
  congrArg (Lexeme.name s.column :: ·) s.value.quotedIn_lexemes

theorem Reaction.quotedIn_lexemes (r : Reaction) : quotedIn r.lexemes = r.quoted := by
  cases r with
  | nothing => rfl
  | update settings condition =>
    have hs : (settings.map Setting.lexemes).flatMap quotedIn = settings.flatMap Setting.quoted := by
      rw [List.flatMap_map]
      exact congrArg (settings.flatMap ·) (funext Setting.quotedIn_lexemes)
    rw [lexemes, quotedIn_append, quotedIn_append, quotedIn_listed, hs, quotedIn_whereLexemes]
    rfl

theorem OnConflict.quotedIn_lexemes (c : OnConflict) : quotedIn c.lexemes = c.quoted := by
  have ha : quotedIn (c.arbiter.elim [] Arbiter.lexemes) = c.arbiter.elim [] Arbiter.quoted := by
    cases c.arbiter with
    | none => rfl
    | some a => exact a.quotedIn_lexemes
  rw [lexemes, quotedIn_append, quotedIn_append, ha, c.reaction.quotedIn_lexemes]
  rfl

theorem TableName.quotedIn_lexemes (n : TableName) : quotedIn n.lexemes = n.quoted := by
  obtain ⟨schema, name⟩ := n
  cases schema <;> rfl

theorem quotedIn_returningLexemes (es : List Term) : quotedIn (returningLexemes es) = es.flatMap Term.quoted := by
  rw [returningLexemes]
  split
  · rename_i h
    rw [List.isEmpty_iff.1 h]
    rfl
  · rw [quotedIn_cons_of_not rfl, quotedIn_listed, flatMap_quotedIn]

theorem Insert.quotedIn_lexemes (i : Insert) : quotedIn i.lexemes = i.quoted := by
  have hcolumns : (i.columns.map fun c ↦ [Lexeme.name c]).flatMap quotedIn = i.columns.map .name := by
    rw [List.flatMap_map]
    exact List.map_eq_flatMap.symm
  have hrows : (i.rows.map fun row ↦ bracketed (row.map Term.lexemes)).flatMap quotedIn =
      i.rows.flatten.flatMap Term.quoted := by
    have hr (row : List Term) : quotedIn (bracketed (row.map Term.lexemes)) = row.flatMap Term.quoted := by
      rw [quotedIn_bracketed, flatMap_quotedIn]
    simp only [List.flatMap_map, hr]
    rw [← List.flatMap_id, List.flatMap_assoc]
    rfl
  have hconflict : quotedIn (i.onConflict.elim [] OnConflict.lexemes) = i.onConflict.elim [] OnConflict.quoted := by
    cases i.onConflict with
    | none => rfl
    | some c => exact c.quotedIn_lexemes
  have hinsert : quotedIn [.word "INSERT", .word "INTO"] = [] := rfl
  have hend : quotedIn [.symbol ";"] = [] := rfl
  rw [lexemes, quotedIn_append, hinsert, quotedIn_append, quotedIn_append, i.table.quotedIn_lexemes, quotedIn_bracketed,
    hcolumns, quotedIn_cons_of_not rfl, quotedIn_append, quotedIn_listed, hrows, quotedIn_append, hconflict,
    quotedIn_append, quotedIn_returningLexemes, hend, List.append_nil]
  rfl

theorem quotedIn_numbered (index : Nat) (ls : List Lexeme) : quotedIn (numbered index ls) = quotedIn ls := by
  induction ls generalizing index with
  | nil => rfl
  | cons l ls ih =>
    rw [numbered]
    cases l with
    | name s => exact congrArg (Lexeme.name s :: ·) (ih _)
    | literal s => exact congrArg (Lexeme.literal s :: ·) (ih _)
    | parameter n => exact ih _
    | word s => exact ih _
    | symbol s => exact ih _

structure Renaming where
  name : String → String
  key : String → String
  value : Value → Value

def Lexeme.rename (f : Renaming) : Lexeme → Lexeme
  | .name s => .name (f.name s)
  | .literal s => .literal (f.key s)
  | l => l

def Term.rename (f : Renaming) : Term → Term
  | .column qualifier name => .column (qualifier.map f.name) (f.name name)
  | .excluded name => .excluded (f.name name)
  | .value v => .value (f.value v)
  | .verbatim s => .verbatim s
  | .key e k => .key (e.rename f) (f.key k)
  | .binary op lhs rhs => .binary op (lhs.rename f) (rhs.rename f)
  | .not e => .not (e.rename f)
  | .isNull e => .isNull (e.rename f)
  | .isNotNull e => .isNotNull (e.rename f)
  | .labelled e name => .labelled (e.rename f) (f.name name)

def Arbiter.rename (f : Renaming) : Arbiter → Arbiter
  | .index terms predicate => .index (terms.map (Term.rename f)) (predicate.map (Term.rename f))
  | .constraint name => .constraint (f.name name)

def Setting.rename (f : Renaming) (s : Setting) : Setting := ⟨f.name s.column, s.value.rename f⟩

def Reaction.rename (f : Renaming) : Reaction → Reaction
  | .nothing => .nothing
  | .update settings condition => .update (settings.map (Setting.rename f)) (condition.map (Term.rename f))

def OnConflict.rename (f : Renaming) (c : OnConflict) : OnConflict :=
  ⟨c.arbiter.map (Arbiter.rename f), c.reaction.rename f⟩

def TableName.rename (f : Renaming) (n : TableName) : TableName := ⟨n.schema.map f.name, f.name n.name⟩

def Insert.rename (f : Renaming) (i : Insert) : Insert where
  table := i.table.rename f
  columns := i.columns.map f.name
  rows := i.rows.map (List.map (Term.rename f))
  onConflict := i.onConflict.map (OnConflict.rename f)
  returning := i.returning.map (Term.rename f)

/-- What remains of an insertion without its names, keys and values. -/
def Insert.shape (i : Insert) : Insert := i.rename ⟨fun _ ↦ "", fun _ ↦ "", fun _ ↦ .null⟩

variable (f : Renaming)

theorem rename_enclosed (ls : List Lexeme) :
    (enclosed ls).map (Lexeme.rename f) = enclosed (ls.map (Lexeme.rename f)) := by
  simp [enclosed, Lexeme.rename]

theorem rename_listed (lists : List (List Lexeme)) :
    (listed lists).map (Lexeme.rename f) = listed (lists.map (List.map (Lexeme.rename f))) := by
  induction lists with
  | nil => rfl
  | cons as lists ih =>
    cases lists with
    | nil => simp [listed, List.intercalate]
    | cons bs lists =>
      rw [listed_cons_cons, List.map_append, List.map_cons, ih]
      exact (listed_cons_cons ..).symm

theorem rename_bracketed (lists : List (List Lexeme)) :
    (bracketed lists).map (Lexeme.rename f) = bracketed (lists.map (List.map (Lexeme.rename f))) :=
  (rename_enclosed f _).trans (congrArg enclosed (rename_listed f lists))

theorem rename_operator (op : Operator) : op.lexemes.map (Lexeme.rename f) = op.lexemes := by
  cases op with
  | comparison op => cases op <;> rfl
  | and => rfl
  | or => rfl

theorem rename_bare (s : String) : (Lexeme.bare s).rename f = .bare s := by
  unfold Lexeme.bare
  split <;> rfl

theorem rename_numbered (index : Nat) (ls : List Lexeme) :
    (numbered index ls).map (Lexeme.rename f) = numbered index (ls.map (Lexeme.rename f)) := by
  induction ls generalizing index with
  | nil => rfl
  | cons l ls ih =>
    rw [numbered, List.map_cons, ih]
    cases l <;> rfl

theorem Term.lexemes_rename (e : Term) : (e.rename f).lexemes = e.lexemes.map (Lexeme.rename f) := by
  induction e with
  | column qualifier name => cases qualifier <;> rfl
  | excluded name => rfl
  | value v => rfl
  | verbatim s => exact congrArg (fun l ↦ [l]) (rename_bare f s).symm
  | key e k ih =>
    rw [rename, lexemes, lexemes, rename_enclosed, List.map_append, ih]
    rfl
  | binary op lhs rhs ihl ihr =>
    rw [rename, lexemes, lexemes, rename_enclosed, List.map_append, List.map_append, ihl, ihr, rename_operator]
  | not e ih =>
    rw [rename, lexemes, lexemes, rename_enclosed, List.map_cons, ih]
    rfl
  | isNull e ih =>
    rw [rename, lexemes, lexemes, rename_enclosed, List.map_append, ih]
    rfl
  | isNotNull e ih =>
    rw [rename, lexemes, lexemes, rename_enclosed, List.map_append, ih]
    rfl
  | labelled e name ih =>
    rw [rename, lexemes, lexemes, List.map_append, ih]
    rfl

theorem map_lexemes_rename (es : List Term) :
    (es.map (Term.rename f)).map Term.lexemes = (es.map Term.lexemes).map (List.map (Lexeme.rename f)) := by
  rw [List.map_map, List.map_map]
  exact List.map_congr_left fun e _ ↦ e.lexemes_rename f

theorem whereLexemes_rename (condition : Option Term) :
    whereLexemes (condition.map (Term.rename f)) = (whereLexemes condition).map (Lexeme.rename f) := by
  cases condition with
  | none => rfl
  | some e => exact congrArg (Lexeme.word "WHERE" :: ·) (e.lexemes_rename f)

theorem Arbiter.lexemes_rename (a : Arbiter) : (a.rename f).lexemes = a.lexemes.map (Lexeme.rename f) := by
  cases a with
  | index terms predicate =>
    rw [rename, lexemes, lexemes, List.map_append, rename_bracketed, map_lexemes_rename, whereLexemes_rename]
  | constraint name => rfl

theorem Setting.lexemes_rename (s : Setting) : (s.rename f).lexemes = s.lexemes.map (Lexeme.rename f) :=
  congrArg (fun ls ↦ Lexeme.name (f.name s.column) :: .symbol "=" :: ls) (s.value.lexemes_rename f)

theorem Reaction.lexemes_rename (r : Reaction) : (r.rename f).lexemes = r.lexemes.map (Lexeme.rename f) := by
  cases r with
  | nothing => rfl
  | update settings condition =>
    have hs : (settings.map (Setting.rename f)).map Setting.lexemes =
        (settings.map Setting.lexemes).map (List.map (Lexeme.rename f)) := by
      rw [List.map_map, List.map_map]
      exact List.map_congr_left fun s _ ↦ s.lexemes_rename f
    rw [rename, lexemes, lexemes, List.map_append, List.map_append, rename_listed, hs, whereLexemes_rename]
    rfl

theorem OnConflict.lexemes_rename (c : OnConflict) : (c.rename f).lexemes = c.lexemes.map (Lexeme.rename f) := by
  have ha : (c.arbiter.map (Arbiter.rename f)).elim [] Arbiter.lexemes =
      (c.arbiter.elim [] Arbiter.lexemes).map (Lexeme.rename f) := by
    cases c.arbiter with
    | none => rfl
    | some a => exact a.lexemes_rename f
  rw [lexemes, lexemes, List.map_append, List.map_append, ← ha, ← c.reaction.lexemes_rename f]
  rfl

theorem TableName.lexemes_rename (n : TableName) : (n.rename f).lexemes = n.lexemes.map (Lexeme.rename f) := by
  obtain ⟨schema, name⟩ := n
  cases schema <;> rfl

theorem returningLexemes_rename (es : List Term) :
    returningLexemes (es.map (Term.rename f)) = (returningLexemes es).map (Lexeme.rename f) := by
  cases es with
  | nil => rfl
  | cons e es =>
    have hl := rename_listed f ((e :: es).map Term.lexemes)
    rw [← map_lexemes_rename] at hl
    exact congrArg (Lexeme.word "RETURNING" :: ·) hl.symm

/-- A statement whose names, keys and values are replaced is read as before, but for the text of the names and keys. -/
theorem Insert.lexemes_rename (i : Insert) : (i.rename f).lexemes = i.lexemes.map (Lexeme.rename f) := by
  have hcolumns : (i.columns.map f.name).map (fun c ↦ [Lexeme.name c]) =
      (i.columns.map fun c ↦ [Lexeme.name c]).map (List.map (Lexeme.rename f)) := by
    rw [List.map_map, List.map_map]
    rfl
  have hrows : (i.rows.map (List.map (Term.rename f))).map (fun row ↦ bracketed (row.map Term.lexemes)) =
      (i.rows.map fun row ↦ bracketed (row.map Term.lexemes)).map (List.map (Lexeme.rename f)) := by
    rw [List.map_map, List.map_map]
    refine List.map_congr_left fun row _ ↦ ?_
    rw [Function.comp_apply, Function.comp_apply, rename_bracketed, map_lexemes_rename]
  have hconflict : (i.onConflict.map (OnConflict.rename f)).elim [] OnConflict.lexemes =
      (i.onConflict.elim [] OnConflict.lexemes).map (Lexeme.rename f) := by
    cases i.onConflict with
    | none => rfl
    | some c => exact c.lexemes_rename f
  rw [lexemes, lexemes, rename]
  simp only [List.map_append, List.map_cons, rename_bracketed, rename_listed, ← hcolumns, ← hrows, ← hconflict,
    ← returningLexemes_rename, ← i.table.lexemes_rename]
  rfl

/-- Lexemes that differ at most in the text between quote marks. -/
inductive Lexeme.Alike : Lexeme → Lexeme → Prop
  | refl (l : Lexeme) : Alike l l
  | name (s s' : String) : Alike (.name s) (.name s')
  | literal (s s' : String) : Alike (.literal s) (.literal s')

theorem alike_of_rename {l l' : Lexeme} (h : l.rename f = l'.rename f) : l.Alike l' := by
  cases l with
  | name s =>
    cases l' with
    | name s' => exact .name s s'
    | _ => cases h
  | literal s =>
    cases l' with
    | literal s' => exact .literal s s'
    | _ => cases h
  | _ =>
    cases l' <;> cases h
    exact .refl _

end Upsert.Sql
