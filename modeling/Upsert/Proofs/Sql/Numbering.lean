import Upsert.Proofs.Sql.Insertion

namespace Upsert.Sql

section

variable {α : Type} (ts us : List Token)

@[simp] theorem params_append : params (ts ++ us) = params ts ++ params us := List.filterMap_append

theorem params_cons (t : Token) : params (t :: ts) = t.value?.toList ++ params ts := by
  cases h : t.value? <;> simp [params, h]

theorem next_eq (index : Nat) (t : Token) : t.next index = index + t.value?.toList.length := by
  cases h : t.value? <;> simp [Token.next, h]

theorem lexemes_append (index : Nat) :
    lexemes index (ts ++ us) = lexemes index ts ++ lexemes (index + (params ts).length) us := by
  induction ts generalizing index with
  | nil => rfl
  | cons t ts ih =>
    rw [List.cons_append, lexemes, lexemes, ih, next_eq, params_cons, List.length_append, Nat.add_assoc,
      List.append_assoc]

theorem lexemes_append_of_params (h : params ts = []) (index : Nat) :
    lexemes index (ts ++ us) = lexemes index ts ++ lexemes index us := by
  rw [lexemes_append, h, List.length_nil, Nat.add_zero]

theorem parameter?_bare (s : String) : (Lexeme.bare s).parameter? = none := by
  unfold Lexeme.bare
  split <;> rfl

theorem filterMap_lexeme? (index : Nat) (t : Token) :
    (t.lexeme? index).toList.filterMap Lexeme.parameter? = t.value?.toList.map fun _ ↦ index + 1 := by
  cases t with
  | word s => exact List.filterMap_cons_none (parameter?_bare s)
  | mark s => exact List.filterMap_cons_none (parameter?_bare s)
  | verbatim s => exact List.filterMap_cons_none (parameter?_bare s)
  | _ => rfl

theorem filterMap_lexemes (index : Nat) :
    (lexemes index ts).filterMap Lexeme.parameter? = List.range' (index + 1) (params ts).length := by
  induction ts generalizing index with
  | nil => rfl
  | cons t ts ih =>
    rw [lexemes, List.filterMap_append, filterMap_lexeme?, ih, next_eq, params_cons, List.length_append,
      ← List.range'_append_1, Nat.add_right_comm]
    congr 1
    cases t.value? <;> rfl

end

@[simp] theorem params_parenthesized (ts : List Token) : params (parenthesized ts) = params ts := by
  rw [parenthesized, params_append]
  exact List.append_nil _

@[simp] theorem params_separated (tss : List (List Token)) : params (separated tss) = tss.flatMap params := by
  induction tss with
  | nil => rfl
  | cons ts tss ih =>
    cases tss with
    | nil => simp [separated]
    | cons us uss =>
      have hs : separated (ts :: us :: uss) = ts ++ [.mark ",", .blank] ++ separated (us :: uss) := rfl
      have hp : params [.mark ",", .blank] = [] := rfl
      rw [hs, params_append, params_append, hp, ih, List.append_nil]
      rfl

@[simp] theorem params_spaced (words : List String) : params (spaced words) = [] := by
  induction words with
  | nil => rfl
  | cons w words ih => exact ih

@[simp] theorem params_operator (op : Operator) : params op.tokens = [] := by
  cases op with
  | comparison op => cases op <;> rfl
  | and => exact params_spaced _
  | or => exact params_spaced _

def Term.params (e : Term) : List Value := Sql.params e.tokens

namespace Term

@[simp] theorem params_column (q : Option String) (name : String) : (Term.column q name).params = [] := by
  cases q <;> rfl

@[simp] theorem params_key (e : Term) (k : String) : (Term.key e k).params = e.params := by
  rw [params, tokens, params_parenthesized, params_append]
  exact List.append_nil _

@[simp] theorem params_binary (op : Operator) (lhs rhs : Term) :
    (Term.binary op lhs rhs).params = lhs.params ++ rhs.params := by
  rw [params, tokens, params_parenthesized, params_append, params_append, params_operator, List.append_nil]
  rfl

@[simp] theorem params_not (e : Term) : e.not.params = e.params := by
  rw [params, tokens, params_parenthesized, params_append]
  rfl

@[simp] theorem params_isNull (e : Term) : e.isNull.params = e.params := by
  rw [params, tokens, params_parenthesized, params_append]
  exact List.append_nil _

@[simp] theorem params_isNotNull (e : Term) : e.isNotNull.params = e.params := by
  rw [params, tokens, params_parenthesized, params_append]
  exact List.append_nil _

@[simp] theorem params_labelled (e : Term) (name : String) : (Term.labelled e name).params = e.params := by
  rw [params, tokens, params_append, params_append, params_spaced, List.append_nil]
  exact List.append_nil _

end Term

theorem params_listTokens (es : List Term) : params (Term.listTokens es) = es.flatMap Term.params := by
  rw [Term.listTokens, params_separated, List.flatMap_map]
  rfl

theorem params_values (vs : List Value) : (vs.map Term.value).flatMap Term.params = vs := by
  rw [List.flatMap_map]
  exact List.flatMap_singleton' vs

theorem params_whereTokens (predicate : Option Term) :
    params (whereTokens predicate) = predicate.toList.flatMap Term.params := by
  cases predicate with
  | none => rfl
  | some e => simp [whereTokens, Term.params]

theorem Arbiter.params_tokens (a : Arbiter) : params a.tokens = a.terms.flatMap Term.params := by
  cases a with
  | index es predicate =>
    have ht : (Arbiter.index es predicate).tokens =
      [.blank] ++ (parenthesized (Term.listTokens es) ++ whereTokens predicate) := rfl
    rw [ht, params_append, params_append, params_parenthesized, params_listTokens, params_whereTokens,
      ← List.flatMap_append]
    rfl
  | constraint name => rfl

theorem Reaction.params_tokens (r : Reaction) : params r.tokens = r.terms.flatMap Term.params := by
  cases r with
  | nothing => rfl
  | update settings condition =>
    have hs (s : Setting) : params s.tokens = s.value.params := rfl
    rw [tokens, params_append, params_append, params_spaced, params_separated, params_whereTokens, List.nil_append,
      List.flatMap_map, terms, List.flatMap_append, List.flatMap_map]
    rfl

theorem OnConflict.params_tokens (c : OnConflict) :
    params c.tokens = (c.arbiter.elim [] Arbiter.terms ++ c.reaction.terms).flatMap Term.params := by
  rw [tokens, params_append, params_append, Reaction.params_tokens, List.flatMap_append]
  cases c.arbiter with
  | none => rfl
  | some a => exact congrArg (· ++ _) a.params_tokens

theorem params_rowTokens (rows : List (List Term)) : params (rowTokens rows) = rows.flatten.flatMap Term.params := by
  simp only [rowTokens, params_separated, List.flatMap_map, params_parenthesized, params_listTokens]
  rw [← List.flatMap_id, List.flatMap_assoc]
  rfl

theorem params_returningTokens (es : List Term) : params (returningTokens es) = es.flatMap Term.params := by
  rw [returningTokens]
  split
  · rename_i h
    rw [List.isEmpty_iff.1 h]
    rfl
  · rw [params_append, params_spaced, params_listTokens, List.nil_append]

theorem params_tableName (n : TableName) : params n.tokens = [] := by
  obtain ⟨schema, name⟩ := n
  cases schema <;> rfl

theorem params_columnTokens (columns : List String) : params (columnTokens columns) = [] := by
  rw [columnTokens, params_parenthesized, params_separated, List.flatMap_map]
  exact List.flatMap_eq_nil_iff.2 fun _ _ ↦ rfl

theorem Insert.params_tokens (i : Insert) : params i.tokens = (i.terms ++ i.returning).flatMap Term.params := by
  have hc : params (i.onConflict.elim [] OnConflict.tokens) = (i.onConflict.elim [] fun c ↦
      c.arbiter.elim [] Arbiter.terms ++ c.reaction.terms).flatMap Term.params := by
    cases i.onConflict with
    | none => rfl
    | some c => exact c.params_tokens
  rw [tokens_eq, params_cons, params_append, params_append, params_cons, params_append, params_append, params_append,
    params_append, params_append, params_spaced, params_spaced, params_tableName, params_columnTokens, hc,
    params_rowTokens, params_returningTokens, terms, List.flatMap_append, List.flatMap_append]
  simp [params, Token.value?]

section

variable {α : Type} {f : α → List Token} {as : List α}

def bracketed (lists : List (List Lexeme)) : List Lexeme :=
  .symbol "(" :: [.symbol ","].intercalate lists ++ [.symbol ")"]

theorem mapIdx_lexemes_cons (index width : Nat) (a : α) :
    (a :: as).mapIdx (fun i a ↦ lexemes (index + i * width) (f a)) =
      lexemes index (f a) :: as.mapIdx fun i a ↦ lexemes (index + width + i * width) (f a) := by
  have hi (i : Nat) : index + (i + 1) * width = index + width + i * width := by
    rw [Nat.add_mul, Nat.one_mul, Nat.add_assoc, Nat.add_comm width]
  simp only [List.mapIdx_cons, Nat.zero_mul, Nat.add_zero, hi]

theorem lexemes_separated {w : Nat} (h : ∀ a ∈ as, (params (f a)).length = w) (index : Nat) :
    lexemes index (separated (as.map f)) =
      [.symbol ","].intercalate (as.mapIdx fun i a ↦ lexemes (index + i * w) (f a)) := by
  induction as generalizing index with
  | nil => rfl
  | cons a as ih =>
    obtain ⟨ha, has⟩ := List.forall_mem_cons.1 h
    cases as with
    | nil => simp [separated, List.intercalate]
    | cons b bs =>
      have hs : separated ((a :: b :: bs).map f) = f a ++ ([.mark ",", .blank] ++ separated ((b :: bs).map f)) :=
        List.append_assoc ..
      have hc : lexemes (index + w) [.mark ",", .blank] = [.symbol ","] := rfl
      have hp : (params [.mark ",", .blank]).length = 0 := rfl
      rw [hs, lexemes_append, lexemes_append, ha, hc, hp, Nat.add_zero, ih has, mapIdx_lexemes_cons,
        mapIdx_lexemes_cons index, mapIdx_lexemes_cons, List.intercalate_cons_cons, List.append_assoc]

theorem lexemes_parenthesized (index : Nat) (ts : List Token) :
    lexemes index (parenthesized ts) = .symbol "(" :: lexemes index ts ++ [.symbol ")"] := by
  rw [parenthesized, lexemes_append]
  rfl

theorem lexemes_columnTokens (index : Nat) (columns : List String) :
    lexemes index (columnTokens columns) = bracketed (columns.map fun c ↦ [.name c]) := by
  have hn : (columns.mapIdx fun i c ↦ lexemes (index + i * 0) [.name c]) = columns.map fun c ↦ [.name c] :=
    List.ext_getElem? fun i ↦ by simp [lexemes, Token.lexeme?]
  rw [columnTokens, lexemes_parenthesized, lexemes_separated (w := 0) fun _ _ ↦ rfl, hn, bracketed]

/-- What the values of `rows` rows are read as: row `i` has the parameters from `i * width + 1` to
`(i + 1) * width`. -/
def rowLexemes (rows width : Nat) : List Lexeme :=
  [.symbol ","].intercalate ((List.range rows).map fun i ↦
    bracketed ((List.range width).map fun j ↦ [.parameter (i * width + j + 1)]))

theorem lexemes_separated_alike {w : Nat} {g : Nat → List Lexeme}
    (h : ∀ a ∈ as, (params (f a)).length = w ∧ ∀ index, lexemes index (f a) = g index) (index : Nat) :
    lexemes index (separated (as.map f)) =
      [.symbol ","].intercalate ((List.range as.length).map fun i ↦ g (index + i * w)) := by
  rw [lexemes_separated fun a ha ↦ (h a ha).1]
  congr 1
  refine List.ext_getElem (by simp) fun i hi _ ↦ ?_
  have hm : i < as.length := by simpa using hi
  rw [List.getElem_mapIdx, List.getElem_map, List.getElem_range]
  exact (h _ (List.getElem_mem hm)).2 _

theorem lexemes_values (index : Nat) (vs : List Value) :
    lexemes index (parenthesized (Term.listTokens (vs.map .value))) =
      bracketed ((List.range vs.length).map fun j ↦ [.parameter (index + j + 1)]) := by
  have hf : vs.map (Term.tokens ∘ Term.value) = vs.map fun v ↦ [.value v] := rfl
  have hl : lexemes index (separated (vs.map fun v ↦ [.value v])) =
      [.symbol ","].intercalate ((List.range vs.length).map fun j ↦ [.parameter (index + j * 1 + 1)]) :=
    lexemes_separated_alike (f := fun v ↦ [.value v]) (g := fun n ↦ [.parameter (n + 1)])
      (fun _ _ ↦ ⟨rfl, fun _ ↦ rfl⟩) index
  rw [lexemes_parenthesized, Term.listTokens, List.map_map, hf, hl, bracketed]
  simp only [Nat.mul_one]

theorem lexemes_rowTokens {rows : List (List Value)} {w : Nat} (h : ∀ vs ∈ rows, vs.length = w) :
    lexemes 0 (rowTokens (rows.map fun vs ↦ vs.map .value)) = rowLexemes rows.length w := by
  rw [rowTokens, List.map_map, lexemes_separated_alike (w := w)
    (g := fun n ↦ bracketed ((List.range w).map fun j ↦ [.parameter (n + j + 1)])), rowLexemes]
  · simp only [Nat.zero_add]
  · intro vs hvs
    refine ⟨?_, fun n ↦ h vs hvs ▸ lexemes_values n vs⟩
    rw [Function.comp_apply, params_parenthesized, params_listTokens, params_values, h vs hvs]

def TableName.lexemes (n : TableName) : List Lexeme :=
  n.schema.elim [] (fun schema ↦ [.name schema, .symbol "."]) ++ [.name n.name]

theorem lexemes_tableName (n : TableName) : lexemes 0 n.tokens = n.lexemes := by
  obtain ⟨schema, name⟩ := n
  cases schema <;> rfl

theorem OnConflict.exists_lexemes (c : OnConflict) (us : List Token) (index : Nat) :
    ∃ tail, lexemes index (c.tokens ++ us) = .word "ON" :: .word "CONFLICT" :: tail := by
  have ht : c.tokens ++ us = [.blank, .word "ON", .blank, .word "CONFLICT"] ++
      (c.arbiter.elim [] Arbiter.tokens ++ (c.reaction.tokens ++ us)) := by
    simp only [tokens, List.append_assoc]
  rw [ht, lexemes_append_of_params _ _ rfl]
  exact ⟨_, rfl⟩

theorem Insert.exists_lexemes {i : Insert} {rows : List (List Value)} {w : Nat} {c : OnConflict}
    (hr : i.rows = rows.map fun vs ↦ vs.map .value) (hw : ∀ vs ∈ rows, vs.length = w) (hc : i.onConflict = some c) :
    ∃ tail, lexemes 0 i.tokens =
      [.word "INSERT", .word "INTO"] ++ i.table.lexemes ++ bracketed (i.columns.map fun c ↦ [.name c]) ++
        .word "VALUES" :: rowLexemes rows.length w ++ .word "ON" :: .word "CONFLICT" :: tail := by
  obtain ⟨tail, ht⟩ := c.exists_lexemes (returningTokens i.returning ++ [.mark ";"]) (params (rowTokens i.rows)).length
  refine ⟨tail, ?_⟩
  have hhead : lexemes 0 (.word "INSERT" :: spaced ["INTO"]) = [.word "INSERT", .word "INTO"] := rfl
  have hblank (ts : List Token) : lexemes 0 (.blank :: ts) = lexemes 0 ts := rfl
  have hvalues : lexemes 0 (spaced ["VALUES"]) = [.word "VALUES"] := rfl
  rw [tokens_eq, hc, Option.elim_some, ← List.cons_append, lexemes_append_of_params _ _ rfl, hhead,
    lexemes_append_of_params _ _ (params_tableName _), lexemes_tableName, hblank,
    lexemes_append_of_params _ _ (params_columnTokens _), lexemes_columnTokens, lexemes_append_of_params _ _ rfl,
    hvalues, lexemes_append, Nat.zero_add, ht, hr, lexemes_rowTokens hw]
  simp only [List.append_assoc, List.cons_append, List.nil_append]

end

end Upsert.Sql
