import Upsert.Proofs.Sql.Shape
import Upsert.Proofs.Value.Equality

namespace Upsert.Sql

/-- Terms in which the truth values are the only text that goes out as it is, and in which nothing has a label. -/
inductive Term.IsExpression : Term → Prop
  | column (qualifier : Option String) (name : String) : IsExpression (.column qualifier name)
  | excluded (name : String) : IsExpression (.excluded name)
  | value (v : Value) : IsExpression (.value v)
  | truth (b : Bool) : IsExpression (.truth b)
  | key {e : Term} (operand : IsExpression e) (k : String) : IsExpression (.key e k)
  | binary (op : Operator) {lhs rhs : Term} (left : IsExpression lhs) (right : IsExpression rhs) :
    IsExpression (.binary op lhs rhs)
  | not {e : Term} (operand : IsExpression e) : IsExpression (.not e)
  | isNull {e : Term} (operand : IsExpression e) : IsExpression (.isNull e)
  | isNotNull {e : Term} (operand : IsExpression e) : IsExpression (.isNotNull e)

namespace Term.IsExpression

variable {e : Term}

theorem isReadable (h : e.IsExpression) : e.isReadable := by
  induction h with
  | truth b => cases b <;> rfl
  | binary op _ _ ihl ihr => exact Bool.and_eq_true_iff.2 ⟨ihl, ihr⟩
  | key _ _ ih => exact ih
  | not _ ih => exact ih
  | isNull _ ih => exact ih
  | isNotNull _ ih => exact ih
  | _ => rfl

theorem exists_head (h : e.IsExpression) (index : Nat) :
    ∃ l ls, Sql.lexemes index e.tokens = l :: ls ∧ l ≠ .word "NOT" := by
  have hp (ts : List Token) : ∃ l ls, Sql.lexemes index (parenthesized ts) = l :: ls ∧ l ≠ .word "NOT" :=
    ⟨.symbol "(", _, lexemes_parenthesized index ts, Lexeme.noConfusion⟩
  cases h with
  | column qualifier name => cases qualifier <;> exact ⟨_, _, rfl, Lexeme.noConfusion⟩
  | excluded name => exact ⟨.word "EXCLUDED", _, rfl, by decide⟩
  | value v => exact ⟨_, _, rfl, Lexeme.noConfusion⟩
  | truth b => cases b <;> exact ⟨_, _, rfl, by decide⟩
  | key _ k => exact hp _
  | binary op _ _ => exact hp _
  | not _ => exact hp _
  | isNull _ => exact hp _
  | isNotNull _ => exact hp _

end Term.IsExpression

/-- Takes what it reads off the front of the lexemes. -/
abbrev Reading (α : Type) := List Lexeme → Option (α × List Lexeme)

def Operator.read? : Reading Operator
  | .symbol "=" :: ls => some (.comparison .eq, ls)
  | .symbol "<>" :: ls => some (.comparison .notEq, ls)
  | .symbol "<" :: ls => some (.comparison .lt, ls)
  | .symbol "<=" :: ls => some (.comparison .ltEq, ls)
  | .symbol ">" :: ls => some (.comparison .gt, ls)
  | .symbol ">=" :: ls => some (.comparison .gtEq, ls)
  | .word "IS" :: .word "DISTINCT" :: .word "FROM" :: ls => some (.comparison .isDistinctFrom, ls)
  | .word "IS" :: .word "NOT" :: .word "DISTINCT" :: .word "FROM" :: ls =>
    some (.comparison .isNotDistinctFrom, ls)
  | .word "AND" :: ls => some (.and, ls)
  | .word "OR" :: ls => some (.or, ls)
  | _ => none

namespace Term

def closed (e : Term) : Reading Term
  | .symbol ")" :: ls => some (e, ls)
  | _ => none

def named (name : String) : Reading Term
  | .symbol "." :: .name name' :: ls => some (.column (some name) name', ls)
  | ls => some (.column none name, ls)

def operated (operand : Reading Term) (e : Term) : Reading Term
  | .symbol "->" :: .literal k :: ls => closed (.key e k) ls
  | .word "IS" :: .word "NULL" :: ls => closed (.isNull e) ls
  | .word "IS" :: .word "NOT" :: .word "NULL" :: ls => closed (.isNotNull e) ls
  | ls => do
    let (op, ls) ← Operator.read? ls
    let (rhs, ls) ← operand ls
    closed (.binary op e rhs) ls

/-- Reads an expression. The values are those that are bound to the parameters, from number 1 on. -/
def read (values : List Value) : Nat → Reading Term
  | _ + 1, .name name :: ls => named name ls
  | _ + 1, .word "EXCLUDED" :: .symbol "." :: .name name :: ls => some (.excluded name, ls)
  | _ + 1, .word "TRUE" :: ls => some (.truth true, ls)
  | _ + 1, .word "FALSE" :: ls => some (.truth false, ls)
  | _ + 1, .parameter n :: ls => values[n - 1]?.map fun v ↦ (.value v, ls)
  | fuel + 1, .symbol "(" :: .word "NOT" :: ls => do
    let (e, ls) ← read values fuel ls
    closed (.not e) ls
  | fuel + 1, .symbol "(" :: ls => do
    let (e, ls) ← read values fuel ls
    operated (read values fuel) e ls
  | _, _ => none

def read? (text : String) (values : List Value) : Option Term := do
  let ls ← Lexer.lex text
  match ← read values (ls.length + 1) ls with
  | (e, []) => some e
  | _ => none

end Term

section

variable {ls : List Lexeme} {e : Term} {values : List Value} {operand : Reading Term}

namespace Term

theorem named_of_not_point {name : String} (h : ls.head? ≠ some (.symbol ".")) :
    named name ls = some (.column none name, ls) := by
  rw [named]
  rintro name' ls' rfl
  exact h rfl

theorem operated_binary (op : Operator) (ls : List Lexeme) : operated operand e (op.lexemes ++ ls) = (do
    let (rhs, ls) ← operand ls
    closed (.binary op e rhs) ls) := by
  cases op with
  | comparison op => cases op <;> rfl
  | and => rfl
  | or => rfl

theorem read_operation (fuel : Nat) (h : ls.head? ≠ some (.word "NOT")) :
    read values (fuel + 1) (.symbol "(" :: ls) = (do
      let (e, ls) ← read values fuel ls
      operated (read values fuel) e ls) := by
  rw [read]
  rintro ls' rfl
  exact h rfl

variable {index fuel : Nat}

theorem lexemes_operation (index : Nat) (e : Term) (ts : List Token) (ls : List Lexeme) :
    Sql.lexemes index (parenthesized (e.tokens ++ ts)) ++ ls = .symbol "(" ::
      (Sql.lexemes index e.tokens ++ (Sql.lexemes (index + e.params.length) ts ++ .symbol ")" :: ls)) := by
  rw [lexemes_parenthesized, lexemes_append, params]
  simp only [List.cons_append, List.append_assoc, List.nil_append]

theorem lexemes_key (k : String) : Sql.lexemes index (key e k).tokens ++ ls = .symbol "(" ::
    (Sql.lexemes index e.tokens ++ .symbol "->" :: .literal k :: .symbol ")" :: ls) := lexemes_operation ..

theorem lexemes_isNull : Sql.lexemes index e.isNull.tokens ++ ls = .symbol "(" ::
    (Sql.lexemes index e.tokens ++ .word "IS" :: .word "NULL" :: .symbol ")" :: ls) := lexemes_operation ..

theorem lexemes_isNotNull : Sql.lexemes index e.isNotNull.tokens ++ ls = .symbol "(" ::
    (Sql.lexemes index e.tokens ++ .word "IS" :: .word "NOT" :: .word "NULL" :: .symbol ")" :: ls) :=
  lexemes_operation ..

theorem lexemes_not : Sql.lexemes index e.not.tokens ++ ls = .symbol "(" :: .word "NOT" ::
    (Sql.lexemes index e.tokens ++ .symbol ")" :: ls) := by
  rw [tokens, lexemes_parenthesized, lexemes_append_of_params _ _ rfl]
  simp only [List.cons_append, List.append_assoc]
  rfl

theorem lexemes_binary (op : Operator) (lhs rhs : Term) :
    Sql.lexemes index (binary op lhs rhs).tokens ++ ls = .symbol "(" :: (Sql.lexemes index lhs.tokens ++
      (op.lexemes ++ (Sql.lexemes (index + lhs.params.length) rhs.tokens ++ .symbol ")" :: ls))) := by
  have ho (i : Nat) : Sql.lexemes i op.tokens = op.lexemes := by
    cases op with
    | comparison op => cases op <;> rfl
    | and => rfl
    | or => rfl
  rw [tokens, List.append_assoc, lexemes_operation, lexemes_append_of_params _ _ (params_operator op), ho,
    List.append_assoc]

theorem head?_operator (op : Operator) (ls : List Lexeme) : (op.lexemes ++ ls).head? ≠ some (.symbol ".") := by
  cases op with
  | comparison op => cases op <;> simp [Operator.lexemes]
  | and => simp [Operator.lexemes]
  | or => simp [Operator.lexemes]

theorem read_operand (h : e.IsExpression)
    (he : read values fuel (Sql.lexemes index e.tokens ++ ls) = some (e, ls)) :
    read values (fuel + 1) (.symbol "(" :: (Sql.lexemes index e.tokens ++ ls)) = operated (read values fuel) e ls := by
  obtain ⟨l, ls', hl, hn⟩ := h.exists_head index
  rw [read_operation fuel (by simpa [hl] using hn), he]
  rfl

theorem bound_right {lhs rhs : Term} (op : Operator) (h : (Term.binary op lhs rhs).params <+: values.drop index) :
    lhs.params <+: values.drop index ∧ rhs.params <+: values.drop (index + lhs.params.length) := by
  obtain ⟨vs, h⟩ := h
  rw [params_binary, List.append_assoc] at h
  refine ⟨⟨_, h⟩, vs, ?_⟩
  rw [← List.drop_drop, ← h, List.drop_left]

/-- An expression is read back with anything behind it that is not a point. -/
theorem read_lexemes (h : e.IsExpression) (hv : e.params <+: values.drop index)
    (hf : (Sql.lexemes index e.tokens ++ ls).length < fuel) (hl : ls.head? ≠ some (.symbol ".")) :
    read values fuel (Sql.lexemes index e.tokens ++ ls) = some (e, ls) := by
  -- On the fuel: an operand is read with the rest of its operation behind it, and with the number of its first value.
  induction fuel generalizing e index ls with
  | zero => omega
  | succ fuel ih =>
    cases h with
    | column qualifier name =>
      cases qualifier with
      | none => exact named_of_not_point hl
      | some qualifier => rfl
    | excluded name => rfl
    | value v =>
      obtain ⟨vs, hv⟩ := hv
      have hget : values[index]? = some v := by
        rw [← List.head?_drop, ← hv]
        rfl
      show values[index]?.map _ = _
      rw [hget]
      rfl
    | truth b => cases b <;> rfl
    | key h k =>
      rw [params_key] at hv
      rw [lexemes_key] at hf ⊢
      rw [read_operand h (ih h hv (Nat.lt_of_succ_lt_succ hf) (by simp))]
      rfl
    | binary op hlhs hrhs =>
      obtain ⟨hvl, hvr⟩ := bound_right op hv
      rw [lexemes_binary] at hf ⊢
      have hlr := Nat.lt_of_succ_lt_succ hf
      simp only [List.length_append] at hlr
      rw [read_operand hlhs (ih hlhs hvl (Nat.lt_of_succ_lt_succ hf) (head?_operator op _)), operated_binary,
        ih hrhs hvr (by simp only [List.length_append]; omega) (by simp)]
      rfl
    | not h =>
      rw [params_not] at hv
      rw [lexemes_not] at hf ⊢
      rw [read, ih h hv (by simp only [List.length_cons] at hf ⊢; omega) (by simp)]
      rfl
    | isNull h =>
      rw [params_isNull] at hv
      rw [lexemes_isNull] at hf ⊢
      rw [read_operand h (ih h hv (Nat.lt_of_succ_lt_succ hf) (by simp))]
      rfl
    | isNotNull h =>
      rw [params_isNotNull] at hv
      rw [lexemes_isNotNull] at hf ⊢
      rw [read_operand h (ih h hv (Nat.lt_of_succ_lt_succ hf) (by simp))]
      rfl

theorem read?_text (h : e.IsExpression) : read? (text e.tokens) e.params = some e := by
  have hr : read e.params ((Sql.lexemes 0 e.tokens ++ []).length + 1) (Sql.lexemes 0 e.tokens ++ []) = some (e, []) :=
    read_lexemes h (List.prefix_refl _) (Nat.lt_succ_self _) (by simp)
  rw [List.append_nil] at hr
  rw [read?, lex_text (legible_tokens h.isReadable)]
  simp only [Option.bind_eq_bind, Option.bind_some, hr]

end Term

end

namespace Term

def eq : Term → Term → Bool
  | .column p m, .column q n => p == q && m == n
  | .excluded m, .excluded n => m == n
  | .value v, .value w => v == w
  | .verbatim s, .verbatim t => s == t
  | .key d k, .key e l => d.eq e && k == l
  | .binary op l r, .binary op' l' r' => op == op' && l.eq l' && r.eq r'
  | .not d, .not e | .isNull d, .isNull e | .isNotNull d, .isNotNull e => d.eq e
  | .labelled d m, .labelled e n => d.eq e && m == n
  | _, _ => false

instance : BEq Term := ⟨eq⟩

def plain : Term → Term := rename ⟨id, id, Value.plain⟩

theorem eq_iff (d e : Term) : d.eq e ↔ d.plain = e.plain := by
  induction d generalizing e with
  | _ => cases e <;> simp_all [eq, plain, rename, Value.beq_iff, and_assoc]

theorem IsExpression.plain {e : Term} (h : e.IsExpression) : e.plain.IsExpression := by
  induction h with
  | column qualifier name => exact .column _ _
  | excluded name => exact .excluded _
  | value v => exact .value _
  | truth b => exact .truth b
  | key _ k ih => exact .key ih k
  | binary op _ _ ihl ihr => exact .binary op ihl ihr
  | not _ ih => exact .not ih
  | isNull _ ih => exact .isNull ih
  | isNotNull _ ih => exact .isNotNull ih

end Term

def Token.plain : Token → Token
  | .value v => .value v.plain
  | t => t

theorem texts_plain (index : Nat) (ts : List Token) : texts index (ts.map Token.plain) = texts index ts := by
  induction ts generalizing index with
  | nil => rfl
  | cons t ts ih =>
    rw [List.map_cons, texts, texts]
    cases t <;> exact congrArg _ (ih _)

theorem params_plain (ts : List Token) : params (ts.map Token.plain) = (params ts).map Value.plain := by
  induction ts with
  | nil => rfl
  | cons t ts ih =>
    rw [List.map_cons, params_cons, params_cons, ih]
    cases t <;> rfl

theorem plain_operator (op : Operator) : op.tokens.map Token.plain = op.tokens := by
  cases op with
  | comparison op => cases op <;> rfl
  | and => rfl
  | or => rfl

namespace Term

theorem tokens_plain (e : Term) : e.plain.tokens = e.tokens.map Token.plain := by
  induction e with
  | column qualifier name => cases qualifier <;> rfl
  | _ => simp_all [plain, rename, tokens, parenthesized, spaced, plain_operator, Token.plain]

theorem text_plain (e : Term) : text e.plain.tokens = text e.tokens := by
  rw [tokens_plain, text, text, texts_plain]

theorem params_plain_eq_iff (d e : Term) : d.plain.params = e.plain.params ↔ d.params == e.params := by
  rw [params, params, tokens_plain, tokens_plain, Sql.params_plain, Sql.params_plain]
  exact Value.map_plain_eq_iff d.params e.params

end Term

theorem eq_of_text_eq {d e : Term} (hd : d.IsExpression) (he : e.IsExpression) (ht : text d.tokens = text e.tokens)
    (hp : d.params = e.params) : d = e := by
  have hr := Term.read?_text hd
  rw [ht, hp, Term.read?_text he] at hr
  exact (Option.some.inj hr).symm

/-- Expressions of one text, to which the same values are bound, are the same expression; and so with equality of
values. -/
theorem text_unambiguous {d e : Term} (hd : d.IsExpression) (he : e.IsExpression) :
    (text d.tokens = text e.tokens ∧ d.params = e.params ↔ d = e) ∧
    (text d.tokens = text e.tokens ∧ d.params == e.params ↔ d == e) := by
  constructor
  · refine ⟨fun h ↦ eq_of_text_eq hd he h.1 h.2, ?_⟩
    rintro rfl
    exact ⟨rfl, rfl⟩
  · have heq : d == e ↔ d.plain = e.plain := d.eq_iff e
    rw [heq, ← Term.params_plain_eq_iff, ← d.text_plain, ← e.text_plain]
    refine ⟨fun h ↦ eq_of_text_eq hd.plain he.plain h.1 h.2, fun h ↦ ?_⟩
    rw [h]
    exact ⟨rfl, rfl⟩

theorem text_unambiguous_nested :
    let d : Term := .binary .and (.binary .or (.column none "a") (.value (.int 1))) (.isNull (.value (.int 2)))
    let e : Term := .binary .or (.column none "a") (.binary .and (.value (.int 1)) (.isNull (.value (.int 2))))
    d.params = e.params ∧ text d.tokens ≠ text e.tokens := by
  intro d e
  have hd : d.IsExpression := .binary _ (.binary _ (.column _ _) (.value _)) (.isNull (.value _))
  have he : e.IsExpression := .binary _ (.column _ _) (.binary _ (.value _) (.isNull (.value _)))
  have hp : d.params = e.params := rfl
  refine ⟨hp, fun ht ↦ ?_⟩
  injection (text_unambiguous hd he).1.1 ⟨ht, hp⟩ with ho
  cases ho

end Upsert.Sql
