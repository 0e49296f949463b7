import Upsert.Proofs.Plan.Lowering
import Upsert.Proofs.Plan.Statement

namespace Upsert

open Sql (Arbiter Setting Reaction Term)

variable {t : Target} {table : String} {target : Option ConflictTarget} {action : Action} {predicate : Option Expression}
  {layout : Layout} {b : Batch} {s : Scope} {err : PlanError}

namespace Scope

inductive Refuses : Scope → Reference → ExpressionFault → Prop
  | blank {s : Scope} {r : Reference} (h : Text.isBlankText r.name = true) : Refuses s r .blankReference
  | proposed (name : String) : Refuses .indexPredicate (.proposed name) (.proposedInPredicate name)

theorem refuses_of_stored {name : String} (h : s.stored name = .error err) :
    ∃ fault, s.Refuses (.stored name) fault ∧ err = .invalidExpression fault := by
  unfold stored at h
  split at h
  · next hb =>
    cases h
    exact ⟨_, .blank hb, rfl⟩
  · cases s <;> cases h

theorem refuses_of_proposed {name : String} (h : s.proposed name = .error err) :
    ∃ fault, s.Refuses (.proposed name) fault ∧ err = .invalidExpression fault := by
  unfold proposed at h
  split at h
  · next hb =>
    cases h
    exact ⟨_, .blank hb, rfl⟩
  · cases s with
    | table t => cases h
    | indexPredicate =>
      cases h
      exact ⟨_, .proposed name, rfl⟩

theorem not_admits_of_refuses {r : Reference} {fault : ExpressionFault} (h : s.Refuses r fault) : ¬s.Admits r := by
  intro ha
  cases h with
  | blank hb => cases s <;> simp [Admits, hb] at ha
  | proposed name => exact Bool.noConfusion ha.2

theorem refuses_table {r : Reference} {fault : ExpressionFault} (h : (Scope.table table).Refuses r fault) :
    fault = .blankReference ∧ Text.isBlankText r.name = true := by
  cases h with
  | blank hb => exact ⟨rfl, hb⟩

end Scope

namespace Expression

def Refused (s : Scope) (e : Expression) (err : PlanError) : Prop :=
  ∃ r ∈ e.references, ∃ fault, s.Refuses r fault ∧ err = .invalidExpression fault

variable {e : Expression} {items : List Expression}

theorem Refused.of_references {e' : Expression} (h : e.Refused s err) (hr : e.references ⊆ e'.references) :
    e'.Refused s err := by
  obtain ⟨r, hm, hf⟩ := h
  exact ⟨r, hr hm, hf⟩

theorem Refused.of_item (he : e ∈ items) (h : e.Refused s err) :
    ∃ r ∈ referencesOf items, ∃ fault, s.Refuses r fault ∧ err = .invalidExpression fault := by
  obtain ⟨r, hm, hf⟩ := h
  rw [referencesOf_eq]
  exact ⟨r, List.mem_flatMap.2 ⟨e, he, hm⟩, hf⟩

theorem exists_of_lowerOnto {op : Sql.Operator} {l : Term} (h : lowerOnto s op l items = .error err) :
    ∃ e ∈ items, e.lower s = .error err := by
  induction items generalizing l with
  | nil => cases h
  | cons e es ih =>
    rw [lowerOnto] at h
    obtain h | ⟨u, -, h⟩ := Except.bind_eq_error_iff.1 h
    · exact ⟨e, List.mem_cons_self, h⟩
    · obtain ⟨e', he, h⟩ := ih h
      exact ⟨e', List.mem_cons_of_mem e he, h⟩

theorem exists_of_group {op : Sql.Operator} {es : List Expression}
    (h : (e.lower s >>= fun l ↦ lowerOnto s op l es) = .error err) : ∃ e' ∈ e :: es, e'.lower s = .error err := by
  obtain h | ⟨u, -, h⟩ := Except.bind_eq_error_iff.1 h
  · exact ⟨e, List.mem_cons_self, h⟩
  · obtain ⟨e', he, h⟩ := exists_of_lowerOnto h
    exact ⟨e', List.mem_cons_of_mem e he, h⟩

theorem refused_of_lower (h : e.lower s = .error err) : e.Refused s err := by
  induction e with
  | literal v => cases h
  | column name =>
    obtain ⟨fault, hf, he⟩ := Scope.refuses_of_stored h
    exact ⟨_, List.mem_singleton_self _, fault, hf, he⟩
  | proposed name =>
    obtain ⟨fault, hf, he⟩ := Scope.refuses_of_proposed h
    exact ⟨_, List.mem_singleton_self _, fault, hf, he⟩
  | comparison op lhs rhs ihl ihr =>
    obtain h | ⟨l, -, h⟩ := Except.bind_eq_error_iff.1 h
    · exact (ihl h).of_references (List.subset_append_left _ _)
    · obtain h | ⟨r, -, h⟩ := Except.bind_eq_error_iff.1 h
      · exact (ihr h).of_references (List.subset_append_right _ _)
      · cases h
  | and items ih =>
    cases items with
    | nil => cases h
    | cons e es =>
      obtain ⟨e', he, h⟩ := exists_of_group h
      exact (ih e' he h).of_item he
  | or items ih =>
    cases items with
    | nil => cases h
    | cons e es =>
      obtain ⟨e', he, h⟩ := exists_of_group h
      exact (ih e' he h).of_item he
  | not e ih => exact ih (Except.map_eq_error_iff.1 h)
  | isNull e ih => exact ih (Except.map_eq_error_iff.1 h)
  | isNotNull e ih => exact ih (Except.map_eq_error_iff.1 h)

theorem refused_of_mapM {e : Option Expression} (h : e.mapM (lower s) = .error err) :
    ∃ x ∈ e, x.Refused s err := by
  cases e with
  | none => cases h
  | some x => exact ⟨x, rfl, refused_of_lower (Except.map_eq_error_iff.1 h)⟩

theorem admits_of_mapM {e : Option Expression} {u : Option Term} (h : e.mapM (lower s) = .ok u) :
    ∀ x ∈ e, ∀ r ∈ x.references, s.Admits r := by
  rintro x rfl
  obtain ⟨v, hv, -⟩ := Except.map_eq_ok_iff.1 h
  exact (exists_lower_iff s x).1 ⟨v, hv⟩

end Expression

def ConflictTarget.indexColumns : ConflictTarget → List String
  | .columns names => names
  | .keyed pairs => pairs.map KeyedColumn.column
  | .constraint _ _ => []

def indexColumns (target : Option ConflictTarget) : List String := target.elim [] ConflictTarget.indexColumns

theorem indexColumns_of_isEmpty (h : ∀ x ∈ target, x.isEmpty = true) : indexColumns target = [] := by
  cases target with
  | none => rfl
  | some x =>
    have hx := h x rfl
    cases x with
    | columns names => simpa [ConflictTarget.isEmpty, indexColumns, ConflictTarget.indexColumns] using hx
    | keyed pairs => simpa [ConflictTarget.isEmpty, indexColumns, ConflictTarget.indexColumns] using hx
    | constraint name columns => rfl

/-- What an update may be asked to set. -/
structure UpdateSet.Admissible (target : Option ConflictTarget) (layout : Layout) (set : UpdateSet) : Prop where
  keyed : ∀ name, target = some (.constraint name []) → set = .inserted
  inserted : ∀ names, set = .columns names → ∀ c ∈ names, c ∈ layout
  keepsKey : ∀ list, set = .assignments list → ∀ a ∈ list, ∀ x ∈ keySources target layout, x.name = a.column →
    a.value = .proposed a.column
  named : ∀ list, set = .assignments list → ∀ a ∈ list, ∀ r ∈ a.value.references, Text.isBlankText r.name = false

structure Batch.Admissible (layout : Layout) (b : Batch) : Prop where
  nonempty : layout ≠ []
  targeted : b.action.isUpdate = true → ∃ x ∈ b.conflictTarget, x.isEmpty = false
  indexed : ∀ e ∈ b.indexPredicate, indexColumns b.conflictTarget ≠ [] ∧
    ∀ r ∈ e.references, Text.isBlankText r.name = false ∧ r.isProposed = false
  named : ∀ c ∈ indexColumns b.conflictTarget, Text.isBlankText c = false
  sent : ∀ x ∈ keySources b.conflictTarget layout, x.name ∈ layout
  set : ∀ set condition, b.action = .update set condition → set.Admissible b.conflictTarget layout
  condition : ∀ set condition, b.action = .update set condition →
    ∀ e ∈ condition, ∀ r ∈ e.references, Text.isBlankText r.name = false

/-- A rule that is broken, by the error that reports it. -/
inductive Batch.Breaks (layout : Layout) (b : Batch) : PlanError → Prop
  | nonempty (h : layout = []) : Breaks layout b .emptyColumnList
  | targeted (ha : b.action.isUpdate = true) (ht : ∀ x ∈ b.conflictTarget, x.isEmpty = true) :
    Breaks layout b .missingConflictTarget
  | untargetedPredicate {e : Expression} (he : b.indexPredicate = some e)
    (ht : ∀ x ∈ b.conflictTarget, x.isEmpty = true) :
    Breaks layout b (.invalidExpression .predicateWithoutColumns)
  | constraintPredicate {e : Expression} {name : String} {columns : List String} (he : b.indexPredicate = some e)
    (ht : b.conflictTarget = some (.constraint name columns)) :
    Breaks layout b (.invalidExpression (.predicateOnConstraint name))
  | predicate {e : Expression} {err : PlanError} (he : b.indexPredicate = some e) (h : e.Refused .indexPredicate err) :
    Breaks layout b err
  | blankTarget {c : String} (hc : c ∈ indexColumns b.conflictTarget) (hb : Text.isBlankText c = true) :
    Breaks layout b (.invalidExpression .blankTarget)
  | sent {x : KeySource} (hx : x ∈ keySources b.conflictTarget layout) (hn : x.name ∉ layout) :
    Breaks layout b (.unknownColumn x.name)
  | unkeyed {set : UpdateSet} {condition : Option Expression} {name : String} (ha : b.action = .update set condition)
    (hs : set ≠ .inserted) (ht : b.conflictTarget = some (.constraint name [])) :
    Breaks layout b (.unkeyedConstraint name)
  | inserted {names : List String} {condition : Option Expression} {c : String}
    (ha : b.action = .update (.columns names) condition) (hc : c ∈ names) (hn : c ∉ layout) :
    Breaks layout b (.unknownColumn c)
  | keyAssigned {list : List Assignment} {condition : Option Expression} {a : Assignment} {x : KeySource}
    (ha : b.action = .update (.assignments list) condition) (hm : a ∈ list)
    (hx : x ∈ keySources b.conflictTarget layout) (hc : x.name = a.column) (hv : a.value ≠ .proposed a.column) :
    Breaks layout b (.invalidExpression (.keyAssigned a.column))
  | blankInValue {list : List Assignment} {condition : Option Expression} {a : Assignment} {r : Reference}
    (ha : b.action = .update (.assignments list) condition) (hm : a ∈ list) (hr : r ∈ a.value.references)
    (hb : Text.isBlankText r.name = true) : Breaks layout b (.invalidExpression .blankReference)
  | blankInCondition {set : UpdateSet} {e : Expression} {r : Reference} (ha : b.action = .update set (some e))
    (hr : r ∈ e.references) (hb : Text.isBlankText r.name = true) :
    Breaks layout b (.invalidExpression .blankReference)

theorem Batch.Breaks.not_admissible (h : b.Breaks layout err) : ¬b.Admissible layout := by
  intro ha
  cases h with
  | nonempty h => exact ha.nonempty h
  | targeted hu ht =>
    obtain ⟨x, hx, he⟩ := ha.targeted hu
    exact Bool.noConfusion ((ht x hx).symm.trans he)
  | untargetedPredicate he ht => exact (ha.indexed _ he).1 (indexColumns_of_isEmpty ht)
  | constraintPredicate he ht =>
    apply (ha.indexed _ he).1
    rw [ht]
    rfl
  | predicate he h =>
    obtain ⟨r, hr, fault, hf, -⟩ := h
    exact Scope.not_admits_of_refuses hf ((ha.indexed _ he).2 r hr)
  | blankTarget hc hb => exact Bool.noConfusion (hb.symm.trans (ha.named _ hc))
  | sent hx hn => exact hn (ha.sent _ hx)
  | unkeyed hu hs ht => exact hs ((ha.set _ _ hu).keyed _ ht)
  | inserted hu hc hn => exact hn ((ha.set _ _ hu).inserted _ rfl _ hc)
  | keyAssigned hu hm hx hc hv => exact hv ((ha.set _ _ hu).keepsKey _ rfl _ hm _ hx hc)
  | blankInValue hu hm hr hb => exact Bool.noConfusion (hb.symm.trans ((ha.set _ _ hu).named _ rfl _ hm _ hr))
  | blankInCondition hu hr hb => exact Bool.noConfusion (hb.symm.trans (ha.condition _ _ hu _ rfl _ hr))

theorem targetColumn_eq_error {name : String} (h : targetColumn name = .error err) :
    Text.isBlankText name = true ∧ err = .invalidExpression .blankTarget := by
  unfold targetColumn at h
  split at h
  · next hb =>
    cases h
    exact ⟨hb, rfl⟩
  · cases h

theorem not_blank_of_targetColumn {name : String} {u : Term} (h : targetColumn name = .ok u) :
    Text.isBlankText name = false := by
  unfold targetColumn at h
  split at h
  · cases h
  · next hb => exact Bool.eq_false_iff.2 hb

theorem KeyedColumn.target_eq_error {c : KeyedColumn} (h : c.target = .error err) :
    Text.isBlankText c.column = true ∧ err = .invalidExpression .blankTarget := by
  obtain h | ⟨u, -, h⟩ := Except.bind_eq_error_iff.1 h
  · exact targetColumn_eq_error h
  · cases h

theorem KeyedColumn.not_blank_of_target {c : KeyedColumn} {u : Term} (h : c.target = .ok u) :
    Text.isBlankText c.column = false := by
  obtain ⟨v, hv, -⟩ := Except.bind_eq_ok_iff.1 h
  exact not_blank_of_targetColumn hv

theorem ConflictTarget.index_eq_error {terms : Except PlanError (List Term)}
    (h : (do return Arbiter.index (← terms) (← lowerPredicate predicate)) = .error err) :
    terms = .error err ∨ lowerPredicate predicate = .error err := by
  obtain h | ⟨us, -, h⟩ := Except.bind_eq_error_iff.1 h
  · exact .inl h
  · obtain h | ⟨p, -, h⟩ := Except.bind_eq_error_iff.1 h
    · exact .inr h
    · cases h

theorem breaks_of_predicate (h : lowerPredicate b.indexPredicate = .error err) : b.Breaks layout err := by
  obtain ⟨e, he, h⟩ := Expression.refused_of_mapM h
  exact .predicate he h

theorem breaks_of_arbiter {x : ConflictTarget} (ht : b.conflictTarget = some x)
    (h : x.arbiter b.indexPredicate = .error err) : b.Breaks layout err := by
  cases x with
  | columns names =>
    obtain h | h := ConflictTarget.index_eq_error h
    · obtain ⟨c, hc, h⟩ := Except.exists_of_mapM_eq_error h
      obtain ⟨hb, rfl⟩ := targetColumn_eq_error h
      exact .blankTarget (by rw [ht]; exact hc) hb
    · exact breaks_of_predicate h
  | keyed pairs =>
    obtain h | h := ConflictTarget.index_eq_error h
    · obtain ⟨c, hc, h⟩ := Except.exists_of_mapM_eq_error h
      obtain ⟨hb, rfl⟩ := KeyedColumn.target_eq_error h
      exact .blankTarget (by rw [ht]; exact List.mem_map_of_mem hc) hb
    · exact breaks_of_predicate h
  | constraint name columns =>
    rw [ConflictTarget.arbiter] at h
    split at h
    · next hp =>
      obtain ⟨e, he⟩ := Option.isSome_iff_exists.1 hp
      cases h
      exact .constraintPredicate he ht
    · cases h

theorem breaks_of_resolveArbiter (h : resolveArbiter b.conflictTarget b.action b.indexPredicate = .error err) :
    b.Breaks layout err := by
  unfold resolveArbiter at h
  split at h
  · next x hx => exact breaks_of_arbiter (Option.filter_eq_some_iff.1 hx).1 (Except.map_eq_error_iff.1 h)
  · next hx =>
    have ht : ∀ x ∈ b.conflictTarget, x.isEmpty = true := by simpa [Option.filter_eq_none_iff] using hx
    split at h
    · next hu =>
      cases h
      exact .targeted hu ht
    · split at h
      · next hp =>
        obtain ⟨e, he⟩ := Option.isSome_iff_exists.1 hp
        cases h
        exact .untargetedPredicate he ht
      · cases h

structure Arbitrable (target : Option ConflictTarget) (action : Action) (predicate : Option Expression) : Prop where
  targeted : action.isUpdate = true → ∃ x ∈ target, x.isEmpty = false
  indexed : ∀ e ∈ predicate, indexColumns target ≠ [] ∧ ∀ r ∈ e.references, Scope.indexPredicate.Admits r
  named : ∀ c ∈ indexColumns target, Text.isBlankText c = false

theorem arbitrable_of_arbiter {x : ConflictTarget} {arbiter : Arbiter} (hx : x.isEmpty = false)
    (h : x.arbiter predicate = .ok arbiter) : Arbitrable (some x) action predicate := by
  have targeted : action.isUpdate = true → ∃ y ∈ some x, y.isEmpty = false := fun _ ↦ ⟨x, rfl, hx⟩
  cases x with
  | columns names =>
    obtain ⟨terms, ht, h⟩ := Except.bind_eq_ok_iff.1 h
    obtain ⟨p, hp, -⟩ := Except.bind_eq_ok_iff.1 h
    refine ⟨targeted, fun e he ↦ ⟨?_, Expression.admits_of_mapM hp e he⟩, ?_⟩
    · simpa [ConflictTarget.isEmpty, indexColumns, ConflictTarget.indexColumns] using hx
    · intro c hc
      obtain ⟨u, hu⟩ := Except.exists_forall₂_iff.1 ⟨terms, Except.mapM_eq_ok_iff.1 ht⟩ c hc
      exact not_blank_of_targetColumn hu
  | keyed pairs =>
    obtain ⟨terms, ht, h⟩ := Except.bind_eq_ok_iff.1 h
    obtain ⟨p, hp, -⟩ := Except.bind_eq_ok_iff.1 h
    refine ⟨targeted, fun e he ↦ ⟨?_, Expression.admits_of_mapM hp e he⟩, ?_⟩
    · simpa [ConflictTarget.isEmpty, indexColumns, ConflictTarget.indexColumns] using hx
    · intro c hc
      obtain ⟨pair, hm, rfl⟩ := List.mem_map.1 hc
      obtain ⟨u, hu⟩ := Except.exists_forall₂_iff.1 ⟨terms, Except.mapM_eq_ok_iff.1 ht⟩ pair hm
      exact KeyedColumn.not_blank_of_target hu
  | constraint name columns =>
    rw [ConflictTarget.arbiter] at h
    split at h
    · cases h
    · next hp =>
      obtain rfl : predicate = none := by simpa using hp
      exact ⟨targeted, by simp, by simp [indexColumns, ConflictTarget.indexColumns]⟩

theorem arbitrable_of_resolveArbiter {arbiter : Option Arbiter} (h : resolveArbiter target action predicate = .ok arbiter) :
    Arbitrable target action predicate := by
  unfold resolveArbiter at h
  split at h
  · next x hx =>
    obtain ⟨rfl, hne⟩ := Option.filter_eq_some_iff.1 hx
    obtain ⟨a, ha, -⟩ := Except.map_eq_ok_iff.1 h
    exact arbitrable_of_arbiter (by simpa using hne) ha
  · next hx =>
    have ht : ∀ x ∈ target, x.isEmpty = true := by simpa [Option.filter_eq_none_iff] using hx
    split at h
    · cases h
    · next hu =>
      split at h
      · cases h
      · next hp =>
        obtain rfl : predicate = none := by simpa using hp
        exact ⟨fun h ↦ absurd h hu, by simp, by simp [indexColumns_of_isEmpty ht]⟩

theorem keepsProposed_iff {a : Assignment} : a.keepsProposed = true ↔ a.value = .proposed a.column := by
  obtain ⟨c, v⟩ := a
  cases v <;> simp [Assignment.keepsProposed]

theorem Assignment.lower_eq_error {sources : List KeySource} {a : Assignment} (h : a.lower table sources = .error err) :
    (∃ x ∈ sources, x.name = a.column ∧ a.value ≠ .proposed a.column ∧
      err = .invalidExpression (.keyAssigned a.column)) ∨ a.value.Refused (.table table) err := by
  rw [lower] at h
  split at h
  · next hk =>
    cases h
    simp only [Bool.and_eq_true, List.any_eq_true, beq_iff_eq, Bool.not_eq_true', ← Bool.not_eq_true,
      keepsProposed_iff] at hk
    obtain ⟨⟨x, hx, hn⟩, hv⟩ := hk
    exact .inl ⟨x, hx, hn, hv, rfl⟩
  · obtain h | ⟨u, -, h⟩ := Except.bind_eq_error_iff.1 h
    · exact .inr (Expression.refused_of_lower h)
    · cases h

theorem Assignment.keeps_of_lower {sources : List KeySource} {a : Assignment} {x : Setting}
    (h : a.lower table sources = .ok x) :
    (∀ y ∈ sources, y.name = a.column → a.value = .proposed a.column) ∧
      ∀ r ∈ a.value.references, Text.isBlankText r.name = false := by
  rw [lower] at h
  split at h
  · cases h
  · next hk =>
    obtain ⟨u, hu, -⟩ := Except.bind_eq_ok_iff.1 h
    refine ⟨fun y hy hn ↦ ?_, (Expression.exists_lower_iff _ _).1 ⟨u, hu⟩⟩
    by_contra hv
    apply hk
    simp only [Bool.and_eq_true, List.any_eq_true, beq_iff_eq, Bool.not_eq_true', ← Bool.not_eq_true,
      keepsProposed_iff]
    exact ⟨⟨y, hy, hn⟩, hv⟩

theorem breaks_of_settings {set : UpdateSet} {condition : Option Expression} (ha : b.action = .update set condition)
    (h : set.settings table b.conflictTarget layout (keySources b.conflictTarget layout) = .error err) :
    b.Breaks layout err := by
  cases set with
  | inserted => cases h
  | columns names =>
    rw [UpdateSet.settings] at h
    split at h
    · next c hc =>
      cases h
      have hn : c ∉ layout := by simpa using List.find?_some hc
      exact .inserted ha (List.mem_of_find?_eq_some hc) hn
    · cases h
  | assignments list =>
    obtain ⟨a, hm, h⟩ := Except.exists_of_mapM_eq_error h
    obtain ⟨x, hx, hn, hv, rfl⟩ | ⟨r, hr, fault, hf, rfl⟩ := Assignment.lower_eq_error h
    · exact .keyAssigned ha hm hx hn hv
    · obtain ⟨rfl, hb⟩ := Scope.refuses_table hf
      exact .blankInValue ha hm hr hb

theorem eq_constraint_of_unkeyed {name : String} (h : unkeyedConstraint? target = some name) :
    target = some (.constraint name []) := by
  unfold unkeyedConstraint? at h
  split at h
  · cases h
    rfl
  · cases h

theorem breaks_of_lower
    (h : b.action.lower table b.conflictTarget layout (keySources b.conflictTarget layout) = .error err) :
    b.Breaks layout err := by
  cases ha : b.action with
  | nothing =>
    rw [ha] at h
    cases h
  | update set condition =>
    rw [ha, Action.lower] at h
    split at h
    · next name hu hi =>
      cases h
      refine .unkeyed ha ?_ (eq_constraint_of_unkeyed hu)
      rintro rfl
      cases hi
    · obtain h | ⟨settings, -, h⟩ := Except.bind_eq_error_iff.1 h
      · obtain h | ⟨asked, -, h⟩ := Except.bind_eq_error_iff.1 h
        · exact breaks_of_settings ha h
        · cases asked <;> cases h
      · obtain h | ⟨c, -, h⟩ := Except.bind_eq_error_iff.1 h
        · obtain ⟨e, rfl, r, hr, fault, hf, rfl⟩ := Expression.refused_of_mapM h
          obtain ⟨rfl, hb⟩ := Scope.refuses_table hf
          exact .blankInCondition ha hr hb
        · cases h

theorem admissible_of_settings {set : UpdateSet} {settings : List Setting}
    (hk : set.isInserted = false → unkeyedConstraint? target = none)
    (h : set.settings table target layout (keySources target layout) = .ok settings) :
    set.Admissible target layout := by
  have keyed : ∀ name, target = some (.constraint name []) → set = .inserted := by
    rintro name rfl
    cases set with
    | inserted => rfl
    | columns names => exact absurd (hk rfl) (by simp [unkeyedConstraint?])
    | assignments list => exact absurd (hk rfl) (by simp [unkeyedConstraint?])
  cases set with
  | inserted => exact ⟨keyed, by simp, by simp, by simp⟩
  | columns names =>
    refine ⟨keyed, ?_, by simp, by simp⟩
    rintro _ ⟨⟩
    rw [UpdateSet.settings] at h
    split at h
    · cases h
    · next hf => simpa using hf
  | assignments list =>
    have hs : ∀ a ∈ list, ∃ x, a.lower table (keySources target layout) = .ok x :=
      Except.exists_forall₂_iff.1 ⟨settings, Except.mapM_eq_ok_iff.1 h⟩
    refine ⟨keyed, by simp, ?_, ?_⟩
    · rintro _ ⟨⟩ a ha x hx hn
      obtain ⟨y, hy⟩ := hs a ha
      exact (Assignment.keeps_of_lower hy).1 x hx hn
    · rintro _ ⟨⟩ a ha
      obtain ⟨y, hy⟩ := hs a ha
      exact (Assignment.keeps_of_lower hy).2

theorem breaks_of_statement (h : t.statement layout b = .error err) : b.Breaks layout err := by
  unfold Target.statement at h
  split at h
  · next hl =>
    cases h
    exact .nonempty (by simpa using hl)
  · obtain h | ⟨arbiter, -, h⟩ := Except.bind_eq_error_iff.1 h
    · exact breaks_of_resolveArbiter h
    · dsimp only at h
      split at h
      · next x hx =>
        cases h
        have hn : x.name ∉ layout := by simpa using List.find?_some hx
        exact .sent (List.mem_of_find?_eq_some hx) hn
      · obtain h | ⟨reaction, -, h⟩ := Except.bind_eq_error_iff.1 h
        · exact breaks_of_lower h
        · cases h

theorem admissible_of_statement {st : Statement} (h : t.statement layout b = .ok st) : b.Admissible layout := by
  obtain ⟨hl, arbiter, reaction, ha, hm, hr, -⟩ := Target.statement_eq_ok_iff.1 h
  obtain ⟨targeted, indexed, named⟩ := arbitrable_of_resolveArbiter ha
  refine ⟨hl, targeted, indexed, named, hm, ?_, ?_⟩
  · intro set condition hu
    rw [hu] at hr
    obtain ⟨hk, settings, c, hs, -, -⟩ := Action.lower_update_eq_ok_iff.1 hr
    obtain ⟨asked, hs, -⟩ := UpdateSet.lower_eq_ok_iff.1 hs
    exact admissible_of_settings hk hs
  · intro set condition hu
    rw [hu] at hr
    obtain ⟨-, settings, c, -, hc, -⟩ := Action.lower_update_eq_ok_iff.1 hr
    exact Expression.admits_of_mapM hc

/-- A batch becomes a statement exactly when it keeps all the rules, and an error reports one that it breaks. -/
theorem statement_accepted_iff (t : Target) (layout : Layout) (b : Batch) :
    ((∃ st, t.statement layout b = .ok st) ↔ b.Admissible layout) ∧
    ∀ err, t.statement layout b = .error err → b.Breaks layout err := by
  refine ⟨⟨?_, ?_⟩, fun err ↦ breaks_of_statement⟩
  · rintro ⟨st, h⟩
    exact admissible_of_statement h
  · intro ha
    cases h : t.statement layout b with
    | ok st => exact ⟨st, rfl⟩
    | error err => exact absurd ha (breaks_of_statement h).not_admissible

theorem statement_accepted_unkeyed :
    let t : Target := ⟨none, "items", ["id"]⟩
    let b (set : UpdateSet) : Batch := {
      rows := [⟨[⟨"code", .string "a"⟩, ⟨"title", .string "b"⟩]⟩]
      conflictTarget := some (.constraint "items_code_key" [])
      action := .update set none }
    (b .inserted).Admissible ["code", "title"] ∧ ¬(b (.columns ["title"])).Admissible ["code", "title"] ∧
      t.statement ["code", "title"] (b (.columns ["title"])) = .error (.unkeyedConstraint "items_code_key") ∧
      (b (.columns ["title"])).Breaks ["code", "title"] (.unkeyedConstraint "items_code_key") := by
  intro t b
  refine ⟨?_, ?_, rfl, ?_⟩
  · exact (statement_accepted_iff t ["code", "title"] (b .inserted)).1.1 ⟨_, rfl⟩
  · intro h
    obtain ⟨st, hst⟩ := (statement_accepted_iff t ["code", "title"] (b (.columns ["title"]))).1.2 h
    cases hst
  · exact (statement_accepted_iff t ["code", "title"] (b (.columns ["title"]))).2 _ rfl

end Upsert
