import Upsert.Proofs.Sql.Numbering

namespace Upsert.Sql

def enclosed (ls : List Lexeme) : List Lexeme := .symbol "(" :: ls ++ [.symbol ")"]

def listed (lists : List (List Lexeme)) : List Lexeme := [.symbol ","].intercalate lists

def Operator.lexemes : Operator → List Lexeme
  | .comparison .eq => [.symbol "="]
  | .comparison .notEq => [.symbol "<>"]
  | .comparison .lt => [.symbol "<"]
  | .comparison .ltEq => [.symbol "<="]
  | .comparison .gt => [.symbol ">"]
  | .comparison .gtEq => [.symbol ">="]
  | .comparison .isDistinctFrom => [.word "IS", .word "DISTINCT", .word "FROM"]
  | .comparison .isNotDistinctFrom => [.word "IS", .word "NOT", .word "DISTINCT", .word "FROM"]
  | .and => [.word "AND"]
  | .or => [.word "OR"]

/-- Parameters stand as number 0 until they are numbered. -/
def Term.lexemes : Term → List Lexeme
  | .column none name => [.name name]
  | .column (some qualifier) name => [.name qualifier, .symbol ".", .name name]
  | .excluded name => [.word "EXCLUDED", .symbol ".", .name name]
  | .value _ => [.parameter 0]
  | .verbatim s => [.bare s]
  | .key e k => enclosed (e.lexemes ++ [.symbol "->", .literal k])
  | .binary op lhs rhs => enclosed (lhs.lexemes ++ op.lexemes ++ rhs.lexemes)
  | .not e => enclosed (.word "NOT" :: e.lexemes)
  | .isNull e => enclosed (e.lexemes ++ [.word "IS", .word "NULL"])
  | .isNotNull e => enclosed (e.lexemes ++ [.word "IS", .word "NOT", .word "NULL"])
  | .labelled e name => e.lexemes ++ [.word "AS", .name name]

def whereLexemes (condition : Option Term) : List Lexeme := condition.elim [] fun e ↦ .word "WHERE" :: e.lexemes

def Arbiter.lexemes : Arbiter → List Lexeme
  | .index terms predicate => bracketed (terms.map Term.lexemes) ++ whereLexemes predicate
  | .constraint name => [.word "ON", .word "CONSTRAINT", .name name]

def Setting.lexemes (s : Setting) : List Lexeme := .name s.column :: .symbol "=" :: s.value.lexemes

def Reaction.lexemes : Reaction → List Lexeme
  | .nothing => [.word "DO", .word "NOTHING"]
  | .update settings condition =>
    [.word "DO", .word "UPDATE", .word "SET"] ++ listed (settings.map Setting.lexemes) ++ whereLexemes condition

def OnConflict.lexemes (c : OnConflict) : List Lexeme :=
  [.word "ON", .word "CONFLICT"] ++ c.arbiter.elim [] Arbiter.lexemes ++ c.reaction.lexemes

def returningLexemes (es : List Term) : List Lexeme :=
  if es.isEmpty then [] else .word "RETURNING" :: listed (es.map Term.lexemes)

def Insert.lexemes (i : Insert) : List Lexeme :=
  [.word "INSERT", .word "INTO"] ++ (i.table.lexemes ++ (bracketed (i.columns.map fun c ↦ [.name c]) ++
    .word "VALUES" :: (listed (i.rows.map fun row ↦ bracketed (row.map Term.lexemes)) ++
      (i.onConflict.elim [] OnConflict.lexemes ++ (returningLexemes i.returning ++ [.symbol ";"])))))

def Lexeme.numbered (index : Nat) : Lexeme → Lexeme
  | .parameter _ => .parameter (index + 1)
  | l => l

def numbered (index : Nat) : List Lexeme → List Lexeme
  | [] => []
  | l :: ls => l.numbered index :: numbered (if l.parameter?.isSome then index + 1 else index) ls

def Token.unnumbered : Token → List Lexeme
  | .value _ => [.parameter 0]
  | t => (t.lexeme? 0).toList

def unnumbered (ts : List Token) : List Lexeme := ts.flatMap Token.unnumbered

variable {index : Nat} {ls : List Lexeme}

@[simp] theorem unnumbered_cons (t : Token) (ts : List Token) :
    unnumbered (t :: ts) = t.unnumbered ++ unnumbered ts := rfl

@[simp] theorem unnumbered_append (ts us : List Token) : unnumbered (ts ++ us) = unnumbered ts ++ unnumbered us :=
  List.flatMap_append

theorem numbered_cons_bare (s : String) : numbered index (.bare s :: ls) = .bare s :: numbered index ls := by
  have hb : (Lexeme.bare s).numbered index = .bare s := by
    unfold Lexeme.bare
    split <;> rfl
  rw [numbered, hb, parameter?_bare]
  rfl

theorem numbered_unnumbered (t : Token) :
    numbered index (t.unnumbered ++ ls) = (t.lexeme? index).toList ++ numbered (t.next index) ls := by
  cases t with
  | word s => exact numbered_cons_bare s
  | mark s => exact numbered_cons_bare s
  | verbatim s => exact numbered_cons_bare s
  | _ => rfl

theorem lexemes_eq_numbered (index : Nat) (ts : List Token) : lexemes index ts = numbered index (unnumbered ts) := by
  induction ts generalizing index with
  | nil => rfl
  | cons t ts ih => rw [lexemes, ih, unnumbered_cons, numbered_unnumbered]

theorem listed_cons_cons (as bs : List Lexeme) (lists : List (List Lexeme)) :
    listed (as :: bs :: lists) = as ++ .symbol "," :: listed (bs :: lists) := by
  rw [listed, List.intercalate_cons_cons, List.append_assoc]
  rfl

@[simp] theorem unnumbered_parenthesized (ts : List Token) : unnumbered (parenthesized ts) = enclosed (unnumbered ts) := by
  rw [parenthesized, unnumbered_append]
  rfl

@[simp] theorem unnumbered_separated (tss : List (List Token)) :
    unnumbered (separated tss) = listed (tss.map unnumbered) := by
  induction tss with
  | nil => rfl
  | cons ts tss ih =>
    cases tss with
    | nil => simp [separated, listed, List.intercalate]
    | cons us uss =>
      have hs : separated (ts :: us :: uss) = ts ++ ([.mark ",", .blank] ++ separated (us :: uss)) :=
        List.append_assoc ..
      rw [hs, unnumbered_append, unnumbered_append, ih]
      exact (listed_cons_cons _ _ _).symm

theorem Operator.unnumbered_tokens (op : Operator) : unnumbered op.tokens = op.lexemes := by
  cases op with
  | comparison op => cases op <;> rfl
  | and => rfl
  | or => rfl

theorem Term.unnumbered_tokens (e : Term) : unnumbered e.tokens = e.lexemes := by
  induction e with
  | column qualifier name => cases qualifier <;> rfl
  | excluded name => rfl
  | value v => rfl
  | verbatim s => rfl
  | key e k ih =>
    rw [tokens, unnumbered_parenthesized, unnumbered_append, ih]
    rfl
  | binary op lhs rhs ihl ihr =>
    rw [tokens, unnumbered_parenthesized, unnumbered_append, unnumbered_append, ihl, ihr, op.unnumbered_tokens]
    rfl
  | not e ih =>
    rw [tokens, unnumbered_parenthesized, unnumbered_append, ih]
    rfl
  | isNull e ih =>
    rw [tokens, unnumbered_parenthesized, unnumbered_append, ih]
    rfl
  | isNotNull e ih =>
    rw [tokens, unnumbered_parenthesized, unnumbered_append, ih]
    rfl
  | labelled e name ih =>
    rw [tokens, unnumbered_append, unnumbered_append, ih, List.append_assoc]
    rfl

theorem unnumbered_listTokens (es : List Term) : unnumbered (Term.listTokens es) = listed (es.map Term.lexemes) := by
  rw [Term.listTokens, unnumbered_separated, List.map_map]
  exact congrArg listed (List.map_congr_left fun e _ ↦ e.unnumbered_tokens)

theorem unnumbered_whereTokens (condition : Option Term) :
    unnumbered (whereTokens condition) = whereLexemes condition := by
  cases condition with
  | none => rfl
  | some e =>
    rw [whereTokens, unnumbered_append, e.unnumbered_tokens]
    rfl

theorem Arbiter.unnumbered_tokens (a : Arbiter) : unnumbered a.tokens = a.lexemes := by
  cases a with
  | index terms predicate =>
    have ht : (Arbiter.index terms predicate).tokens =
      .blank :: (parenthesized (Term.listTokens terms) ++ whereTokens predicate) := rfl
    rw [ht, unnumbered_cons, unnumbered_append, unnumbered_parenthesized, unnumbered_listTokens,
      unnumbered_whereTokens]
    rfl
  | constraint name => rfl

theorem Setting.unnumbered_tokens (s : Setting) : unnumbered s.tokens = s.lexemes := by
  rw [tokens, unnumbered_append, s.value.unnumbered_tokens]
  rfl

theorem Reaction.unnumbered_tokens (r : Reaction) : unnumbered r.tokens = r.lexemes := by
  cases r with
  | nothing => rfl
  | update settings condition =>
    have hs : (settings.map Setting.tokens).map unnumbered = settings.map Setting.lexemes := by
      rw [List.map_map]
      exact List.map_congr_left fun s _ ↦ s.unnumbered_tokens
    rw [tokens, unnumbered_append, unnumbered_append, unnumbered_separated, unnumbered_whereTokens, hs]
    rfl

theorem OnConflict.unnumbered_tokens (c : OnConflict) : unnumbered c.tokens = c.lexemes := by
  have ha : unnumbered (c.arbiter.elim [] Arbiter.tokens) = c.arbiter.elim [] Arbiter.lexemes := by
    cases c.arbiter with
    | none => rfl
    | some a => exact a.unnumbered_tokens
  rw [tokens, unnumbered_append, unnumbered_append, ha, c.reaction.unnumbered_tokens]
  rfl

theorem unnumbered_returningTokens (es : List Term) : unnumbered (returningTokens es) = returningLexemes es := by
  rw [returningTokens, returningLexemes]
  split
  · rfl
  · rw [unnumbered_append, unnumbered_listTokens]
    rfl

theorem unnumbered_rowTokens (rows : List (List Term)) :
    unnumbered (rowTokens rows) = listed (rows.map fun row ↦ bracketed (row.map Term.lexemes)) := by
  rw [rowTokens, unnumbered_separated, List.map_map]
  refine congrArg listed (List.map_congr_left fun row _ ↦ ?_)
  rw [Function.comp_apply, unnumbered_parenthesized, unnumbered_listTokens]
  rfl

theorem unnumbered_columnTokens (columns : List String) :
    unnumbered (columnTokens columns) = bracketed (columns.map fun c ↦ [.name c]) := by
  rw [columnTokens, unnumbered_parenthesized, unnumbered_separated, List.map_map]
  rfl

theorem TableName.unnumbered_tokens (n : TableName) : unnumbered n.tokens = n.lexemes := by
  obtain ⟨schema, name⟩ := n
  cases schema <;> rfl

theorem Insert.unnumbered_tokens (i : Insert) : unnumbered i.tokens = i.lexemes := by
  have hc : unnumbered (i.onConflict.elim [] OnConflict.tokens) = i.onConflict.elim [] OnConflict.lexemes := by
    cases i.onConflict with
    | none => rfl
    | some c => exact c.unnumbered_tokens
  rw [tokens_eq, unnumbered_cons, unnumbered_append, unnumbered_append, unnumbered_cons, unnumbered_append,
    unnumbered_append, unnumbered_append, unnumbered_append, unnumbered_append, i.table.unnumbered_tokens,
    unnumbered_columnTokens, unnumbered_rowTokens, hc, unnumbered_returningTokens]
  rfl

theorem Insert.lex_eq_numbered {i : Insert} (h : i.Readable) :
    Lexer.lex (text i.tokens) = some (numbered 0 i.lexemes) := by
  rw [lex_text h, lexemes_eq_numbered, i.unnumbered_tokens]

end Upsert.Sql
