import Upsert.Proofs.Plan.Lowering
import Upsert.Proofs.Plan.Statement
import Upsert.Proofs.Sql.Numbering

namespace Upsert

open Sql (Term Lexeme Operator Arbiter Setting Reaction Insert bracketed)

namespace Expression

mutual

def literals : Expression → List Value
  | .literal v => [v]
  | .column _ | .proposed _ => []
  | .comparison _ lhs rhs => literals lhs ++ literals rhs
  | .and items | .or items => literalsOf items
  | .not e | .isNull e | .isNotNull e => literals e

def literalsOf : List Expression → List Value
  | [] => []
  | e :: es => literals e ++ literalsOf es

end

end Expression

/-- The terms can be read back, and they bind the values. -/
structure Carries (es : List Term) (vs : List Value) : Prop where
  readable : ∀ e ∈ es, e.isReadable
  params : es.flatMap Term.params = vs

namespace Carries

variable {es fs : List Term} {vs ws : List Value}

theorem nil : Carries [] [] := ⟨by simp, rfl⟩

theorem append (h : Carries es vs) (h' : Carries fs ws) : Carries (es ++ fs) (vs ++ ws) := by
  refine ⟨List.forall_mem_append.2 ⟨h.readable, h'.readable⟩, ?_⟩
  rw [List.flatMap_append, h.params, h'.params]

theorem of_forall (h : ∀ e ∈ es, e.isReadable ∧ e.params = []) : Carries es [] :=
  ⟨fun e he ↦ (h e he).1, List.flatMap_eq_nil_iff.2 fun e he ↦ (h e he).2⟩

end Carries

variable {s : Scope} {t : Term}

theorem Scope.stored_eq_ok {name : String} (h : s.stored name = .ok t) : t.isReadable ∧ t.params = [] := by
  unfold stored at h
  split at h
  · cases h
  · cases s <;> cases h <;> exact ⟨rfl, rfl⟩

theorem Scope.proposed_eq_ok {name : String} (h : s.proposed name = .ok t) : t.isReadable ∧ t.params = [] := by
  unfold proposed at h
  split at h
  · cases h
  · cases s <;> cases h
    exact ⟨rfl, rfl⟩

namespace Sql.Term

theorem params_foldl (op : Operator) (ts : List Term) (t : Term) :
    (ts.foldl (.binary op) t).params = (t :: ts).flatMap params := by
  induction ts generalizing t with
  | nil => simp
  | cons u us ih =>
    rw [List.foldl_cons, ih, List.flatMap_cons, params_binary, List.append_assoc]
    rfl

theorem isReadable_foldl (op : Operator) {ts : List Term} {t : Term} (ht : t.isReadable)
    (hts : ∀ u ∈ ts, u.isReadable) : (ts.foldl (.binary op) t).isReadable := by
  induction ts generalizing t with
  | nil => exact ht
  | cons u us ih =>
    obtain ⟨hu, hus⟩ := List.forall_mem_cons.1 hts
    exact ih (Bool.and_eq_true_iff.2 ⟨ht, hu⟩) hus

end Sql.Term

theorem Carries.joined {ts : List Term} {vs : List Value} (h : Carries ts vs) (op : Operator) (unit : Bool) :
    (Term.joined op unit ts).isReadable ∧ (Term.joined op unit ts).params = vs := by
  obtain ⟨hr, rfl⟩ := h
  cases ts with
  | nil => cases unit <;> exact ⟨rfl, rfl⟩
  | cons t ts =>
    obtain ⟨ht, hts⟩ := List.forall_mem_cons.1 hr
    exact ⟨Term.isReadable_foldl op ht hts, Term.params_foldl op ts t⟩

theorem carries_of_forall₂ {es : List Expression} {ts : List Term}
    (hc : ∀ e ∈ es, ∀ {t}, e.lower s = .ok t → t.isReadable ∧ t.params = e.literals)
    (h : List.Forall₂ (fun e t ↦ e.lower s = .ok t) es ts) : Carries ts (es.flatMap Expression.literals) := by
  induction h with
  | nil => exact .nil
  | @cons e t es ts ht _ ih =>
    obtain ⟨he, hes⟩ := List.forall_mem_cons.1 hc
    obtain ⟨hr, hp⟩ := he ht
    have hone : Carries [t] t.params := ⟨by simpa using hr, List.append_nil _⟩
    rw [List.flatMap_cons, ← hp]
    exact hone.append (ih hes)

namespace Expression

theorem literalsOf_eq (items : List Expression) : literalsOf items = items.flatMap literals := by
  induction items with
  | nil => rfl
  | cons e es ih => rw [literalsOf, ih, List.flatMap_cons]

theorem lower_eq_ok {e : Expression} (h : e.lower s = .ok t) : t.isReadable ∧ t.params = e.literals := by
  induction e generalizing t with
  | literal v =>
    cases h
    exact ⟨rfl, rfl⟩
  | column name => exact Scope.stored_eq_ok h
  | proposed name => exact Scope.proposed_eq_ok h
  | comparison op lhs rhs ihl ihr =>
    obtain ⟨l, r, hl, hr, rfl⟩ := lower_comparison_eq_ok_iff.1 h
    obtain ⟨hl, hlp⟩ := ihl hl
    obtain ⟨hr, hrp⟩ := ihr hr
    exact ⟨by simp [Term.isReadable, hl, hr], by simp [literals, hlp, hrp]⟩
  | and items ih =>
    obtain ⟨ts, hts, rfl⟩ := lower_and_eq_ok_iff.1 h
    rw [literals, literalsOf_eq]
    exact (carries_of_forall₂ ih hts).joined .and true
  | or items ih =>
    obtain ⟨ts, hts, rfl⟩ := lower_or_eq_ok_iff.1 h
    rw [literals, literalsOf_eq]
    exact (carries_of_forall₂ ih hts).joined .or false
  | not e ih =>
    obtain ⟨u, hu, rfl⟩ := Except.map_eq_ok_iff.1 h
    obtain ⟨hr, hp⟩ := ih hu
    exact ⟨hr, by rw [Term.params_not, hp, literals]⟩
  | isNull e ih =>
    obtain ⟨u, hu, rfl⟩ := Except.map_eq_ok_iff.1 h
    obtain ⟨hr, hp⟩ := ih hu
    exact ⟨hr, by rw [Term.params_isNull, hp, literals]⟩
  | isNotNull e ih =>
    obtain ⟨u, hu, rfl⟩ := Except.map_eq_ok_iff.1 h
    obtain ⟨hr, hp⟩ := ih hu
    exact ⟨hr, by rw [Term.params_isNotNull, hp, literals]⟩

end Expression

section

variable {table : String} {target : Option ConflictTarget} {layout : Layout} {sources : List KeySource}

def UpdateSet.expressions : UpdateSet → List Expression
  | .inserted | .columns _ => []
  | .assignments list => list.map Assignment.value

def Action.expressions : Action → List Expression
  | .nothing => []
  | .update set condition => set.expressions ++ condition.toList

/-- The expressions of a batch in the order in which the statement has them. -/
def Batch.expressions (b : Batch) : List Expression := b.indexPredicate.toList ++ b.action.expressions

theorem carries_of_lower {es : List Expression} {ts : List Term}
    (h : List.Forall₂ (fun e t ↦ e.lower s = .ok t) es ts) : Carries ts (es.flatMap Expression.literals) :=
  carries_of_forall₂ (fun _ _ _ ↦ Expression.lower_eq_ok) h

theorem carries_of_option {e : Option Expression} {t : Option Term}
    (h : e.mapM (Expression.lower s) = .ok t) : Carries t.toList (e.toList.flatMap Expression.literals) := by
  cases e with
  | none =>
    cases h
    exact .nil
  | some e =>
    obtain ⟨t, ht, rfl⟩ := Except.map_eq_ok_iff.1 h
    exact carries_of_lower (.cons ht .nil)

theorem ConflictTarget.carries_arbiter {target : ConflictTarget} {predicate : Option Expression} {a : Arbiter}
    (h : target.arbiter predicate = .ok a) :
    Carries a.terms (predicate.toList.flatMap Expression.literals) := by
  cases target with
  | columns names =>
    obtain ⟨terms, ht, h⟩ := Except.bind_eq_ok_iff.1 h
    obtain ⟨predicate', hp, h⟩ := Except.bind_eq_ok_iff.1 h
    cases h
    have hc : Carries terms [] := by
      refine .of_forall fun e he ↦ ?_
      obtain ⟨name, -, hn⟩ := Except.exists_of_mem_mapM ht he
      rw [targetColumn_eq_ok hn]
      exact ⟨rfl, rfl⟩
    exact hc.append (carries_of_option hp)
  | keyed pairs =>
    obtain ⟨terms, ht, h⟩ := Except.bind_eq_ok_iff.1 h
    obtain ⟨predicate', hp, h⟩ := Except.bind_eq_ok_iff.1 h
    cases h
    have hc : Carries terms [] := by
      refine .of_forall fun e he ↦ ?_
      obtain ⟨pair, -, hn⟩ := Except.exists_of_mem_mapM ht he
      obtain ⟨c, hc, h⟩ := Except.bind_eq_ok_iff.1 hn
      cases h
      rw [targetColumn_eq_ok hc]
      exact ⟨rfl, rfl⟩
    exact hc.append (carries_of_option hp)
  | constraint name columns =>
    unfold arbiter at h
    cases predicate with
    | none =>
      cases h
      exact .nil
    | some e => cases h

theorem carries_resolveArbiter {action : Action} {predicate : Option Expression} {arbiter : Option Arbiter}
    (h : resolveArbiter target action predicate = .ok arbiter) :
    Carries (arbiter.elim [] Arbiter.terms) (predicate.toList.flatMap Expression.literals) := by
  unfold resolveArbiter at h
  split at h
  · obtain ⟨a, ha, rfl⟩ := Except.map_eq_ok_iff.1 h
    exact ConflictTarget.carries_arbiter ha
  · split at h
    · cases h
    · cases predicate with
      | none =>
        cases h
        exact .nil
      | some e => cases h

theorem carries_proposed (names : List String) :
    Carries ((names.map Setting.proposed).map Setting.value) [] := by
  refine .of_forall fun e he ↦ ?_
  obtain ⟨x, hx, rfl⟩ := List.mem_map.1 he
  obtain ⟨name, -, rfl⟩ := List.mem_map.1 hx
  exact ⟨rfl, rfl⟩

theorem carries_preservingSettings :
    Carries ((preservingSettings table target layout).map Setting.value) [] := by
  unfold preservingSettings
  split
  · refine .of_forall fun e he ↦ ?_
    obtain ⟨x, hx, rfl⟩ := List.mem_map.1 he
    obtain ⟨c, -, rfl⟩ := List.mem_map.1 hx
    exact ⟨rfl, rfl⟩
  · exact carries_proposed _

theorem UpdateSet.carries_settings {set : UpdateSet} {settings : List Setting}
    (h : set.settings table target layout sources = .ok settings) :
    Carries (settings.map Setting.value) (set.expressions.flatMap Expression.literals) := by
  cases set with
  | inserted =>
    cases h
    exact carries_proposed _
  | columns names =>
    rw [UpdateSet.settings] at h
    split at h <;> cases h
    exact carries_proposed _
  | assignments list =>
    have hl := Except.mapM_eq_ok_iff.1 h
    refine carries_of_lower (s := .table table) (List.forall₂_map_left_iff.2 (List.forall₂_map_right_iff.2 ?_))
    exact hl.imp fun _ _ h ↦ (Assignment.lower_eq_ok h).2

theorem UpdateSet.carries_lower {set : UpdateSet} {settings : List Setting}
    (h : set.lower table target layout sources = .ok settings) :
    Carries (settings.map Setting.value) (set.expressions.flatMap Expression.literals) := by
  obtain ⟨asked, ha, rfl⟩ := UpdateSet.lower_eq_ok_iff.1 h
  have hc := carries_settings ha
  split
  · rename_i hn
    rw [hn] at hc
    rw [← hc.params]
    exact carries_preservingSettings
  · exact hc

theorem Action.carries_lower {action : Action} {reaction : Reaction}
    (h : action.lower table target layout sources = .ok reaction) :
    Carries reaction.terms (action.expressions.flatMap Expression.literals) := by
  cases action with
  | nothing =>
    cases h
    exact .nil
  | update set condition =>
    obtain ⟨-, settings, condition', hs, hc, rfl⟩ := Action.lower_update_eq_ok_iff.1 h
    rw [Action.expressions, List.flatMap_append]
    exact (UpdateSet.carries_lower hs).append (carries_of_option hc)

theorem KeySource.labelled?_eq_some {x : KeySource} (h : x.labelled? = some t) : t.isReadable ∧ t.params = [] := by
  cases x with
  | column name => cases h
  | keyed c k l =>
    cases h
    exact ⟨rfl, rfl⟩

theorem returning_cases {t : Target} {fullRow : Bool} {e : Term} (h : e ∈ returning t fullRow sources) :
    (e = .all ∨ e.isReadable) ∧ e.params = [] := by
  rcases List.mem_append.1 h with h | h
  · split at h
    · rw [List.mem_singleton.1 h]
      exact ⟨.inl rfl, rfl⟩
    · obtain ⟨c, -, rfl⟩ := List.mem_map.1 h
      exact ⟨.inr rfl, rfl⟩
  · obtain ⟨x, -, hx⟩ := List.mem_filterMap.1 h
    obtain ⟨hr, hp⟩ := KeySource.labelled?_eq_some hx
    exact ⟨.inr hr, hp⟩

end

section

variable {t : Target} {layout : Layout} {b : Batch} {st : Statement}

def Batch.values (b : Batch) (layout : Layout) : List Value := b.rows.flatMap fun row ↦ layout.map row.get

theorem getElem?_flatMap {α β : Type} {f : α → List β} {as : List α} {w j : Nat} (h : ∀ a ∈ as, (f a).length = w)
    (hj : j < w) (i : Nat) : (as.flatMap f)[i * w + j]? = as[i]?.bind fun a ↦ (f a)[j]? := by
  induction as generalizing i with
  | nil => rfl
  | cons a as ih =>
    obtain ⟨ha, has⟩ := List.forall_mem_cons.1 h
    rw [List.flatMap_cons]
    cases i with
    | zero =>
      rw [List.getElem?_append_left (by omega), Nat.zero_mul, Nat.zero_add]
      rfl
    | succ i =>
      have hi : (i + 1) * w + j - w = i * w + j := by
        rw [Nat.add_mul, Nat.one_mul]
        omega
      rw [List.getElem?_append_right (by rw [ha, Nat.add_mul]; omega), ha, hi, ih has]
      rfl

theorem getElem?_values (b : Batch) (layout : Layout) (i : Fin b.rows.length) (j : Fin layout.length) :
    (b.values layout)[i * layout.length + j]? = some ((b.rows.get i).get (layout.get j)) := by
  rw [Batch.values, getElem?_flatMap (fun _ _ ↦ List.length_map ..) j.2]
  simp

theorem carries_values (b : Batch) (layout : Layout) :
    Carries (b.rows.map fun row ↦ layout.map fun c ↦ Term.value (row.get c)).flatten (b.values layout) := by
  constructor
  · intro e he
    obtain ⟨_, hrow, he⟩ := List.mem_flatten.1 he
    obtain ⟨row, -, rfl⟩ := List.mem_map.1 hrow
    obtain ⟨c, -, rfl⟩ := List.mem_map.1 he
    rfl
  · have hr (row : Row) : (layout.map fun c ↦ Term.value (row.get c)).flatMap Term.params = layout.map row.get := by
      have hm : (layout.map fun c ↦ Term.value (row.get c)) = (layout.map row.get).map .value := by
        rw [List.map_map]
        rfl
      rw [hm, Sql.params_values]
    rw [← List.flatMap_id, List.flatMap_assoc, List.flatMap_map, Batch.values]
    simp only [id, hr]

theorem Target.carries_statement (h : t.statement layout b = .ok st) :
    st.insert.Readable ∧ st.params = b.values layout ++ b.expressions.flatMap Expression.literals := by
  obtain ⟨-, arbiter, reaction, ha, -, hr, rfl⟩ := Target.statement_eq_ok_iff.1 h
  have hterms : Carries (t.insertion layout b arbiter reaction).terms
      (b.values layout ++ b.expressions.flatMap Expression.literals) := by
    rw [Batch.expressions, List.flatMap_append]
    exact (carries_values b layout).append ((carries_resolveArbiter ha).append (Action.carries_lower hr))
  refine ⟨⟨hterms.readable, fun e he ↦ (returning_cases he).1⟩, ?_⟩
  have hret : (t.insertion layout b arbiter reaction).returning.flatMap Term.params = [] :=
    List.flatMap_eq_nil_iff.2 fun e he ↦ (returning_cases he).2
  rw [Statement.params, Insert.params_tokens, List.flatMap_append, hterms.params, hret, List.append_nil]

theorem Target.exists_lexemes (t : Target) (layout : Layout) (b : Batch) (arbiter : Option Arbiter)
    (reaction : Reaction) : ∃ tail, Sql.lexemes 0 (t.insertion layout b arbiter reaction).tokens =
      [.word "INSERT", .word "INTO"] ++ t.tableName.lexemes ++ bracketed (layout.map fun c ↦ [.name c]) ++
        .word "VALUES" :: Sql.rowLexemes b.rows.length layout.length ++ .word "ON" :: .word "CONFLICT" :: tail := by
  have hrows : (t.insertion layout b arbiter reaction).rows =
      (b.rows.map fun row ↦ layout.map row.get).map fun vs ↦ vs.map Term.value := by
    simp [insertion]
  have hw : ∀ vs ∈ b.rows.map fun row ↦ layout.map row.get, vs.length = layout.length := by
    intro vs hvs
    obtain ⟨row, -, rfl⟩ := List.mem_map.1 hvs
    exact List.length_map ..
  obtain ⟨tail, ht⟩ := Insert.exists_lexemes hrows hw rfl
  rw [List.length_map] at ht
  exact ⟨tail, ht⟩

/-- The parameters are numbered as they are read, a row has its values in the order of the columns, and the literals
of the expressions are behind the rows. -/
theorem parameters_placed (h : t.statement layout b = .ok st) :
    ∃ lexemes tail, Sql.Lexer.lex st.sql = some lexemes ∧
      lexemes = [.word "INSERT", .word "INTO"] ++ t.tableName.lexemes ++
        bracketed (layout.map fun c ↦ [.name c]) ++
        .word "VALUES" :: Sql.rowLexemes b.rows.length layout.length ++ .word "ON" :: .word "CONFLICT" :: tail ∧
      lexemes.filterMap Lexeme.parameter? = List.range' 1 st.params.length ∧
      st.params = b.values layout ++ b.expressions.flatMap Expression.literals ∧
      ∀ (i : Fin b.rows.length) (j : Fin layout.length),
        st.params[i * layout.length + j]? = some ((b.rows.get i).get (layout.get j)) := by
  obtain ⟨hr, hp⟩ := Target.carries_statement h
  have hl : Sql.Lexer.lex st.sql = some (Sql.lexemes 0 st.insert.tokens) := Insert.lex_text hr
  have hn := Sql.filterMap_lexemes st.insert.tokens 0
  obtain ⟨-, arbiter, reaction, -, -, -, rfl⟩ := Target.statement_eq_ok_iff.1 h
  obtain ⟨tail, ht⟩ := t.exists_lexemes layout b arbiter reaction
  refine ⟨_, tail, hl, ht, hn, hp, fun i j ↦ ?_⟩
  have hv := getElem?_values b layout i j
  obtain ⟨hlt, -⟩ := List.getElem?_eq_some_iff.1 hv
  rw [hp, List.getElem?_append_left hlt, hv]

theorem parameters_placed_dollar :
    let t : Target := ⟨none, "$1", ["id"]⟩
    let b : Batch := {
      rows := [⟨[⟨"k", .int 1⟩, ⟨"$2", .int 2⟩]⟩, ⟨[⟨"$2", .int 4⟩, ⟨"k", .int 3⟩]⟩]
      conflictTarget := some (.columns ["k"])
      action := .update (.assignments [⟨"$2", .literal (.int 6)⟩])
        (some (.comparison .lt (.column "$2") (.literal (.int 7))))
      indexPredicate := some (.comparison .gt (.column "$2") (.literal (.int 5))) }
    ∃ st lexemes, t.statement ["k", "$2"] b = .ok st ∧ Sql.Lexer.lex st.sql = some lexemes ∧
      lexemes.filterMap Lexeme.parameter? = [1, 2, 3, 4, 5, 6, 7] ∧
      st.params = [.int 1, .int 2, .int 3, .int 4, .int 5, .int 6, .int 7] := by
  intro t b
  obtain ⟨st, h⟩ : ∃ st, t.statement ["k", "$2"] b = .ok st := ⟨_, rfl⟩
  obtain ⟨lexemes, tail, hl, -, hn, hp, -⟩ := parameters_placed h
  have hv : b.values ["k", "$2"] ++ b.expressions.flatMap Expression.literals =
    [.int 1, .int 2, .int 3, .int 4, .int 5, .int 6, .int 7] := rfl
  rw [hv] at hp
  rw [hp] at hn
  exact ⟨st, lexemes, h, hl, hn, hp⟩

end

end Upsert
