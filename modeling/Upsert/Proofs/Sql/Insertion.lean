import Upsert.Proofs.Sql.Legible

namespace Upsert.Sql

variable {t : Token} {ts us : List Token}

namespace Term

def isReadable : Term → Bool
  | .verbatim s => isBare s && bareKind s == .solid
  | .column _ _ | .excluded _ | .value _ => true
  | .key e _ | .not e | .isNull e | .isNotNull e | .labelled e _ => e.isReadable
  | .binary _ lhs rhs => lhs.isReadable && rhs.isReadable

theorem kind_of_mem_getLast? {e : Term} (h : e.isReadable) (ht : t ∈ e.tokens.getLast?) : t.kind ≠ .operator := by
  have hp (ts : List Token) : t ∈ (parenthesized ts).getLast? → t.kind ≠ .operator := by
    intro ht
    rw [parenthesized, List.getLast?_concat] at ht
    cases ht
    decide
  cases e with
  | column qualifier name => cases qualifier <;> cases ht <;> exact Kind.noConfusion
  | excluded name => cases ht; exact Kind.noConfusion
  | value v => cases ht; exact Kind.noConfusion
  | verbatim s =>
    cases ht
    have hk := (Bool.and_eq_true_iff.1 h).2
    intro hn
    cases (beq_iff_eq.1 hk).symm.trans hn
  | key e k => exact hp _ ht
  | binary op lhs rhs => exact hp _ ht
  | not e => exact hp _ ht
  | isNull e => exact hp _ ht
  | isNotNull e => exact hp _ ht
  | labelled e name =>
    rw [tokens, List.getLast?_concat] at ht
    cases ht
    exact Kind.noConfusion

theorem clause_operator (op : Operator) (hts : Legible ts) : Clause (op.tokens ++ ts) := by
  have hm {s : String} (hs : isBare s) : Clause ([.blank, .mark s, .blank] ++ ts) :=
    .cons rfl rfl ((legible_singleton (t := .mark s) hs).append (.cons rfl rfl hts))
  cases op with
  | comparison op =>
    cases op with
    | isDistinctFrom => exact clause_spaced _ (by decide) hts
    | isNotDistinctFrom => exact clause_spaced _ (by decide) hts
    | _ => exact hm rfl
  | and => exact clause_spaced _ (by decide) hts
  | or => exact clause_spaced _ (by decide) hts

theorem legible_tokens {e : Term} (h : e.isReadable) : Legible e.tokens := by
  induction e with
  | column qualifier name =>
    have hn : Legible [.name name] := legible_singleton rfl
    cases qualifier with
    | none => exact hn
    | some qualifier => exact (legible_singleton (t := .name qualifier) rfl).append (.cons rfl rfl hn)
  | excluded name =>
    exact (legible_singleton (t := .word proposedRow) rfl).append (.cons rfl rfl (legible_singleton rfl))
  | value v => exact legible_singleton rfl
  | verbatim s => exact legible_singleton (t := .verbatim s) (Bool.and_eq_true_iff.1 h).1
  | key e k ih =>
    have hk : Legible [.mark "->", .literal k] :=
      (legible_singleton (t := .mark "->") rfl).append_of_apart (legible_singleton (t := .literal k) rfl) (by
        rintro _ ⟨⟩ _ ⟨⟩
        exact .inr (.inr Kind.noConfusion))
    -- The arrow would run together with an operator in front of it.
    refine ((ih h).append_of_apart hk ?_).parenthesized.legible
    rintro t ht _ ⟨⟩
    exact .inr (.inr (kind_of_mem_getLast? (e := e) h ht))
  | binary op lhs rhs ihl ihr =>
    obtain ⟨hl, hr⟩ := Bool.and_eq_true_iff.1 h
    rw [tokens, List.append_assoc]
    exact ((ihl hl).append (clause_operator op (ihr hr))).parenthesized.legible
  | not e ih =>
    exact ((legible_singleton (t := .word "NOT") rfl).append (.cons rfl rfl (ih h))).parenthesized.legible
  | isNull e ih =>
    exact ((ih h).append (clause_spaced ["IS"] (by decide)
      (legible_singleton (t := .word "NULL") rfl))).parenthesized.legible
  | isNotNull e ih =>
    exact ((ih h).append (clause_spaced ["IS", "NOT"] (by decide)
      (legible_singleton (t := .word "NULL") rfl))).parenthesized.legible
  | labelled e name ih =>
    rw [tokens, List.append_assoc]
    exact (ih h).append (clause_spaced _ (by decide) (legible_singleton rfl))

end Term

theorem legible_listTokens {es : List Term} (h : ∀ e ∈ es, e.isReadable) : Legible (Term.listTokens es) := by
  refine legible_separated fun ts hts ↦ ?_
  obtain ⟨e, he, rfl⟩ := List.mem_map.1 hts
  exact Term.legible_tokens (h e he)

def Arbiter.terms : Arbiter → List Term
  | .index terms predicate => terms ++ predicate.toList
  | .constraint _ => []

def Reaction.terms : Reaction → List Term
  | .nothing => []
  | .update settings condition => settings.map Setting.value ++ condition.toList

def Insert.terms (i : Insert) : List Term :=
  i.rows.flatten ++ i.onConflict.elim [] fun c ↦ c.arbiter.elim [] Arbiter.terms ++ c.reaction.terms

/-- All columns may be returned besides terms. -/
structure Insert.Readable (i : Insert) : Prop where
  terms : ∀ e ∈ i.terms, e.isReadable
  returning : ∀ e ∈ i.returning, e = .all ∨ e.isReadable

theorem legible_name (name : String) : Legible [.name name] := legible_singleton rfl

theorem clause_whereTokens {predicate : Option Term} (h : ∀ e ∈ predicate, e.isReadable) :
    Clause (whereTokens predicate) := by
  cases predicate with
  | none => exact clause_nil
  | some e => exact clause_spaced _ (by decide) (Term.legible_tokens (h e rfl))

theorem Arbiter.clause_tokens {a : Arbiter} (h : ∀ e ∈ a.terms, e.isReadable) : Clause a.tokens := by
  cases a with
  | index terms predicate =>
    obtain ⟨ht, hp⟩ := List.forall_mem_append.1 h
    have hp : ∀ e ∈ predicate, e.isReadable := fun e he ↦ hp e (Option.mem_toList.2 he)
    rw [tokens]
    exact .cons rfl rfl ((legible_listTokens ht).parenthesized.append (clause_whereTokens hp)).legible
  | constraint name => exact clause_spaced _ (by decide) (legible_name name)

theorem Setting.legible_tokens {s : Setting} (h : s.value.isReadable) : Legible s.tokens := by
  have hv := Term.legible_tokens h
  have he : Clause ([.blank, .mark "=", .blank] ++ s.value.tokens) :=
    Term.clause_operator (.comparison .eq) hv
  exact (legible_name s.column).append he

theorem Reaction.clause_tokens {r : Reaction} (h : ∀ e ∈ r.terms, e.isReadable) : Clause r.tokens := by
  cases r with
  | nothing => exact clause_spaced ["DO"] (by decide) (legible_singleton (t := .word "NOTHING") rfl)
  | update settings condition =>
    obtain ⟨hs, hc⟩ := List.forall_mem_append.1 h
    have hs : ∀ ts ∈ settings.map Setting.tokens, Legible ts := by
      intro ts hts
      obtain ⟨s, hm, rfl⟩ := List.mem_map.1 hts
      exact Setting.legible_tokens (hs _ (List.mem_map_of_mem hm))
    have hc : ∀ e ∈ condition, e.isReadable := fun e he ↦ hc e (Option.mem_toList.2 he)
    exact (clause_spaced _ (by decide) (legible_separated hs)).append (clause_whereTokens hc)

theorem OnConflict.clause_tokens {c : OnConflict} (ha : ∀ a ∈ c.arbiter, ∀ e ∈ a.terms, e.isReadable)
    (hr : ∀ e ∈ c.reaction.terms, e.isReadable) : Clause c.tokens := by
  have ht : Clause (c.arbiter.elim [] Arbiter.tokens) := by
    cases h : c.arbiter with
    | none => exact clause_nil
    | some a => exact Arbiter.clause_tokens (ha a h)
  rw [tokens, List.append_assoc]
  exact clause_spaced ["ON"] (by decide)
    ((legible_singleton (t := .word "CONFLICT") rfl).append (ht.append (Reaction.clause_tokens hr)))

theorem TableName.legible_tokens (t : TableName) : Legible t.tokens := by
  obtain ⟨schema, name⟩ := t
  cases schema with
  | none => exact legible_name name
  | some schema => exact (legible_name schema).append (.cons rfl rfl (legible_name name))

def returningTokens (es : List Term) : List Token :=
  if es.isEmpty then [] else spaced ["RETURNING"] ++ Term.listTokens es

theorem clause_returningTokens {es : List Term} (h : ∀ e ∈ es, e = .all ∨ e.isReadable) :
    Clause (returningTokens es) := by
  unfold returningTokens
  split
  · exact clause_nil
  · refine clause_spaced _ (by decide) (legible_separated fun ts hts ↦ ?_)
    obtain ⟨e, he, rfl⟩ := List.mem_map.1 hts
    rcases h e he with rfl | hr
    · exact legible_singleton (t := .verbatim "*") rfl
    · exact Term.legible_tokens hr

def columnTokens (columns : List String) : List Token := parenthesized (separated (columns.map fun c ↦ [.name c]))

def rowTokens (rows : List (List Term)) : List Token :=
  separated (rows.map fun row ↦ parenthesized (Term.listTokens row))

theorem Insert.tokens_eq (i : Insert) : i.tokens =
    .word "INSERT" :: (spaced ["INTO"] ++ (i.table.tokens ++ (.blank :: (columnTokens i.columns ++
      (spaced ["VALUES"] ++ (rowTokens i.rows ++ (i.onConflict.elim [] OnConflict.tokens ++
        (returningTokens i.returning ++ [.mark ";"])))))))) := by
  simp only [tokens, columnTokens, rowTokens, returningTokens, List.append_assoc, List.cons_append, List.nil_append]
  rfl

theorem Insert.legible_tokens {i : Insert} (h : i.Readable) : Legible i.tokens := by
  obtain ⟨ht, hr⟩ := h
  obtain ⟨hv, hc⟩ := List.forall_mem_append.1 ht
  have hend : Clause (returningTokens i.returning ++ [.mark ";"]) :=
    (clause_returningTokens hr).append (.cons rfl rfl legible_nil)
  have hconflict : Clause (i.onConflict.elim [] OnConflict.tokens) := by
    cases ho : i.onConflict with
    | none => exact clause_nil
    | some c =>
      rw [ho] at hc
      obtain ⟨ha, hr⟩ := List.forall_mem_append.1 hc
      exact OnConflict.clause_tokens (fun a hm ↦ by rw [hm] at ha; exact ha) hr
  have hrows : Legible (rowTokens i.rows) := by
    refine legible_separated fun ts hts ↦ ?_
    obtain ⟨row, hrow, rfl⟩ := List.mem_map.1 hts
    exact (legible_listTokens fun e he ↦ hv e (List.mem_flatten_of_mem hrow he)).parenthesized.legible
  have hcolumns : Clause (columnTokens i.columns) := by
    refine (legible_separated fun ts hts ↦ ?_).parenthesized
    obtain ⟨c, -, rfl⟩ := List.mem_map.1 hts
    exact legible_name c
  rw [tokens_eq]
  refine (legible_singleton (t := .word "INSERT") rfl).append (clause_spaced _ (by decide) ?_)
  refine i.table.legible_tokens.append (.cons rfl rfl ?_)
  refine (hcolumns.append (clause_spaced _ (by decide) ?_)).legible
  exact hrows.append (hconflict.append hend)

/-- The server reads an insertion as it was built. -/
theorem Insert.lex_text {i : Insert} (h : i.Readable) : Lexer.lex (text i.tokens) = some (lexemes 0 i.tokens) :=
  Sql.lex_text (legible_tokens h)

end Upsert.Sql
