import Upsert.Proofs.Plan.Statement

namespace Upsert

open Sql (Arbiter Term)

variable {target : Option ConflictTarget} {action : Action} {predicate : Option Expression} {layout : Layout}
  {b : Batch} {t : Target} {st : Statement} {sources : List KeySource}

theorem mapM_target {pairs : List KeyedColumn} {terms : List Term} (h : pairs.mapM KeyedColumn.target = .ok terms) :
    terms = pairs.map KeyedColumn.toTerm := by
  refine Except.eq_map_of_mapM (fun pair e he ↦ ?_) h
  obtain ⟨c, hc, he⟩ := Except.bind_eq_ok_iff.1 he
  cases he
  rw [targetColumn_eq_ok hc]
  rfl

/-- What decides conflicts, by the target that is asked for. -/
inductive Resolves : Option ConflictTarget → Option Arbiter → Prop
  | columns {names : List String} (predicate : Option Term) (h : names ≠ []) :
    Resolves (some (.columns names)) (some (.index (names.map (.column none)) predicate))
  | keyed {pairs : List KeyedColumn} (predicate : Option Term) (h : pairs ≠ []) :
    Resolves (some (.keyed pairs)) (some (.index (pairs.map KeyedColumn.toTerm) predicate))
  | constraint {name : String} (columns : List String) (h : Text.isBlankText name = false) :
    Resolves (some (.constraint name columns)) (some (.constraint name))
  | bare {target : Option ConflictTarget} (h : ∀ x ∈ target, x.isEmpty = true) : Resolves target none

theorem resolves_of_arbiter {x : ConflictTarget} {arbiter : Arbiter} (hx : x.isEmpty = false)
    (h : x.arbiter predicate = .ok arbiter) : Resolves (some x) (some arbiter) := by
  cases x with
  | columns names =>
    obtain ⟨terms, ht, h⟩ := Except.bind_eq_ok_iff.1 h
    obtain ⟨lowered, -, h⟩ := Except.bind_eq_ok_iff.1 h
    cases h
    rw [mapM_targetColumn ht]
    exact .columns lowered (by simpa [ConflictTarget.isEmpty] using hx)
  | keyed pairs =>
    obtain ⟨terms, ht, h⟩ := Except.bind_eq_ok_iff.1 h
    obtain ⟨lowered, -, h⟩ := Except.bind_eq_ok_iff.1 h
    cases h
    rw [mapM_target ht]
    exact .keyed lowered (by simpa [ConflictTarget.isEmpty] using hx)
  | constraint name columns =>
    rw [ConflictTarget.arbiter] at h
    split at h
    · cases h
    · cases h
      exact .constraint columns hx

theorem resolves_of_resolveArbiter {arbiter : Option Arbiter} (h : resolveArbiter target action predicate = .ok arbiter) :
    Resolves target arbiter := by
  unfold resolveArbiter at h
  split at h
  · rename_i x hx
    obtain ⟨rfl, hne⟩ := Option.filter_eq_some_iff.1 hx
    obtain ⟨a, ha, rfl⟩ := Except.map_eq_ok_iff.1 h
    exact resolves_of_arbiter (by simpa using hne) ha
  · rename_i hx
    split at h
    · cases h
    · split at h
      · cases h
      · cases h
        exact .bare (by simpa [Option.filter_eq_none_iff] using hx)

theorem resolveArbiter_eq_none (h : resolveArbiter target action predicate = .ok none) :
    action = .nothing ∧ predicate = none := by
  unfold resolveArbiter at h
  split at h
  · obtain ⟨a, -, ha⟩ := Except.map_eq_ok_iff.1 h
    cases ha
  · split at h
    · cases h
    · rename_i hu
      split at h
      · cases h
      · rename_i hp
        refine ⟨?_, by simpa using hp⟩
        cases action with
        | nothing => rfl
        | update set condition => exact absurd rfl hu

namespace KeySource

/-- What has to be unique for the source to be a part of the key. -/
def term : KeySource → Term
  | .column c => .column none c
  | .keyed c k _ => .key (.column none c) k

end KeySource

def rowKey (layout : Layout) (columns : List String) : List KeySource :=
  (if columns = [] then layout else columns).map .column

theorem keySources_columns (names : List String) (layout : Layout) :
    keySources (some (.columns names)) layout = rowKey layout names := by
  cases names <;> rfl

theorem keySources_constraint (name : String) (columns : List String) (layout : Layout) :
    keySources (some (.constraint name columns)) layout = rowKey layout columns := by
  cases columns <;> rfl

theorem keySources_keyed {pairs : List KeyedColumn} (h : pairs ≠ []) (layout : Layout) :
    keySources (some (.keyed pairs)) layout = keyedSources 0 pairs := by
  cases pairs with
  | nil => exact absurd rfl h
  | cons p ps => rfl

theorem rowKey_of_ne_nil {columns : List String} (h : columns ≠ []) (layout : Layout) :
    rowKey layout columns = columns.map .column := by
  rw [rowKey, if_neg h]

theorem map_column_inj {names names' : List String} :
    names.map KeySource.column = names'.map KeySource.column ↔ names = names' :=
  List.map_inj_right fun _ _ h ↦ KeySource.column.inj h

theorem map_term_column (names : List String) :
    (names.map KeySource.column).map KeySource.term = names.map (.column none) := by
  rw [List.map_map]
  rfl

theorem map_term_keyedSources (n : Nat) (pairs : List KeyedColumn) :
    (keyedSources n pairs).map KeySource.term = pairs.map KeyedColumn.toTerm := by
  induction pairs generalizing n with
  | nil => rfl
  | cons p ps ih => rw [keyedSources, List.map_cons, ih, List.map_cons, KeySource.term, KeyedColumn.toTerm]

theorem eq_column_of_term {s : KeySource} {c : String} (h : s.term = .column none c) : s = .column c := by
  cases s with
  | column d =>
    cases h
    rfl
  | keyed d k l => cases h

theorem eq_keyed_of_term {s : KeySource} {p : KeyedColumn} (h : s.term = p.toTerm) :
    ∃ l, s = .keyed p.column p.key l := by
  cases s with
  | column d => cases h
  | keyed d k l =>
    cases h
    exact ⟨l, rfl⟩

theorem forall₂_of_map_eq_map {α β γ : Type} {f : α → γ} {g : β → γ} {as : List α} {bs : List β}
    (h : as.map f = bs.map g) : List.Forall₂ (fun a b ↦ f a = g b) as bs := by
  have he : List.Forall₂ (· = ·) (as.map f) (bs.map g) := by
    rw [List.forall₂_eq_eq_eq]
    exact h
  exact List.forall₂_map_right_iff.1 (List.forall₂_map_left_iff.1 he)

theorem eq_map_column_of_terms {names : List String} (h : names.map (.column none) = sources.map KeySource.term) :
    sources = names.map .column := by
  have hf := (forall₂_of_map_eq_map h.symm).imp fun _ _ ↦ eq_column_of_term
  have he : List.Forall₂ (· = ·) sources (names.map .column) := List.forall₂_map_right_iff.2 hf
  rwa [List.forall₂_eq_eq_eq] at he

theorem forall₂_keyed_of_terms {pairs : List KeyedColumn}
    (h : pairs.map KeyedColumn.toTerm = sources.map KeySource.term) :
    List.Forall₂ (fun s p ↦ ∃ l, s = .keyed p.column p.key l) sources pairs :=
  (forall₂_of_map_eq_map h.symm).imp fun _ _ ↦ eq_keyed_of_term

theorem terms_eq {terms : List Term} {predicate : Option Term} (layout : Layout)
    (h : Resolves target (some (.index terms predicate))) : terms = (keySources target layout).map KeySource.term := by
  cases h with
  | columns _ hn => rw [keySources_columns, rowKey_of_ne_nil hn, map_term_column]
  | keyed _ hn => rw [keySources_keyed hn, map_term_keyedSources]

theorem exists_constraint {name : String} (h : Resolves target (some (.constraint name))) :
    ∃ columns, target = some (.constraint name columns) := by
  cases h with
  | constraint columns _ => exact ⟨columns, rfl⟩

theorem isEmpty_of_resolves (h : Resolves target none) : ∀ x ∈ target, x.isEmpty = true := by
  cases h with
  | bare he => exact he

theorem arbiter_eq_none {arbiter : Option Arbiter} (he : ∀ x ∈ target, x.isEmpty = true)
    (h : Resolves target arbiter) : arbiter = none := by
  cases h with
  | columns _ hn => exact absurd (he _ rfl) (by simpa [ConflictTarget.isEmpty] using hn)
  | keyed _ hn => exact absurd (he _ rfl) (by simpa [ConflictTarget.isEmpty] using hn)
  | constraint _ hb => exact absurd (he _ rfl) (by simp [ConflictTarget.isEmpty, hb])
  | bare _ => rfl

theorem keySources_eq_layout_iff (he : ∀ x ∈ target, x.isEmpty = true) :
    keySources target layout = layout.map .column ↔
      ∀ name columns, target = some (.constraint name columns) → columns = [] ∨ columns = layout := by
  cases target with
  | none => simp [keySources]
  | some x =>
    have he := he x rfl
    cases x with
    | columns names =>
      obtain rfl : names = [] := by simpa [ConflictTarget.isEmpty] using he
      simp [keySources]
    | keyed pairs =>
      obtain rfl : pairs = [] := by simpa [ConflictTarget.isEmpty] using he
      simp [keySources]
    | constraint name columns =>
      rw [keySources_constraint]
      by_cases hc : columns = []
      · simp [rowKey, hc]
      · rw [rowKey_of_ne_nil hc, map_column_inj]
        simp [hc]

theorem Target.statement_without_target {reaction : Sql.Reaction} (h : t.statement layout b = .ok st)
    (ho : st.insert.onConflict = some ⟨none, reaction⟩) (hk : st.keySources = layout.map .column) :
    t.statement layout { b with conflictTarget := none } = .ok st := by
  obtain ⟨hl, arbiter, reaction', ha, hm, hr, rfl⟩ := statement_eq_ok_iff.1 h
  cases ho
  obtain ⟨hnothing, hpredicate⟩ := resolveArbiter_eq_none ha
  rw [hnothing] at hr
  cases hr
  change keySources b.conflictTarget layout = keySources none layout at hk
  rw [hk] at hm
  refine statement_eq_ok_iff.2 ⟨hl, none, .nothing, ?_, hm, ?_, ?_⟩
  · simp [resolveArbiter, hnothing, hpredicate, Action.isUpdate]
  · rw [hnothing]
    rfl
  · rw [insertion, hk]
    rfl

/-- The key of a statement is what its arbiter names. -/
structure KeyArbitrated (t : Target) (layout : Layout) (b : Batch) (st : Statement) : Prop where
  columns : ∀ (names : List String) predicate reaction,
    st.insert.onConflict = some ⟨some (.index (names.map (.column none)) predicate), reaction⟩ →
      st.keySources = names.map .column
  keyed : ∀ (pairs : List KeyedColumn) predicate reaction,
    st.insert.onConflict = some ⟨some (.index (pairs.map KeyedColumn.toTerm) predicate), reaction⟩ →
      List.Forall₂ (fun s p ↦ ∃ l, s = .keyed p.column p.key l) st.keySources pairs
  constraint : ∀ name reaction, st.insert.onConflict = some ⟨some (.constraint name), reaction⟩ →
    ∃ columns, b.conflictTarget = some (.constraint name columns) ∧
      st.keySources = (if columns = [] then layout else columns).map .column
  bare : ∀ reaction, st.insert.onConflict = some ⟨none, reaction⟩ →
    st.keySources = layout.map .column ∧ t.statement layout { b with conflictTarget := none } = .ok st

theorem terms_eq_of_statement {terms : List Term} {predicate : Option Term} {reaction : Sql.Reaction}
    (h : t.statement layout b = .ok st)
    (ho : st.insert.onConflict = some ⟨some (.index terms predicate), reaction⟩) :
    terms = st.keySources.map KeySource.term := by
  obtain ⟨-, arbiter, reaction', ha, -, -, rfl⟩ := Target.statement_eq_ok_iff.1 h
  cases ho
  exact terms_eq layout (resolves_of_resolveArbiter ha)

theorem keyArbitrated_of_bare (h : t.statement layout b = .ok st)
    (hbare : ∀ reaction, st.insert.onConflict = some ⟨none, reaction⟩ → st.keySources = layout.map .column) :
    KeyArbitrated t layout b st where
  columns _ _ _ ho := eq_map_column_of_terms (terms_eq_of_statement h ho)
  keyed _ _ _ ho := forall₂_keyed_of_terms (terms_eq_of_statement h ho)
  constraint name _ ho := by
    obtain ⟨-, arbiter, reaction, ha, -, -, rfl⟩ := Target.statement_eq_ok_iff.1 h
    cases ho
    obtain ⟨columns, ht⟩ := exists_constraint (resolves_of_resolveArbiter ha)
    refine ⟨columns, ht, ?_⟩
    rw [ht]
    exact keySources_constraint name columns layout
  bare _ ho := ⟨hbare _ ho, Target.statement_without_target h ho (hbare _ ho)⟩

theorem bare_of_blank (h : t.statement layout b = .ok st) {name : String} {columns : List String}
    (ht : b.conflictTarget = some (.constraint name columns)) (hb : Text.isBlankText name = true) :
    st.insert.onConflict = some ⟨none, .nothing⟩ ∧ st.keySources = rowKey layout columns := by
  obtain ⟨-, arbiter, reaction, ha, -, hr, rfl⟩ := Target.statement_eq_ok_iff.1 h
  have he : ∀ x ∈ b.conflictTarget, x.isEmpty = true := by
    rw [ht]
    rintro _ ⟨⟩
    exact hb
  obtain rfl := arbiter_eq_none he (resolves_of_resolveArbiter ha)
  rw [(resolveArbiter_eq_none ha).1] at hr
  cases hr
  refine ⟨rfl, ?_⟩
  rw [ht]
  exact keySources_constraint name columns layout

/-- The key of a statement is what its arbiter names, but for a constraint of a blank name that lists some of the
columns, or all in another order: any constraint may conflict then, and rows are matched by the listed columns. -/
theorem key_arbitrated_iff (h : t.statement layout b = .ok st) :
    (KeyArbitrated t layout b st ↔ ∀ name columns, b.conflictTarget = some (.constraint name columns) →
      Text.isBlankText name = true → columns = [] ∨ columns = layout) ∧
    (∀ terms predicate reaction, st.insert.onConflict = some ⟨some (.index terms predicate), reaction⟩ →
      terms = st.keySources.map KeySource.term) ∧
    ∀ name columns, b.conflictTarget = some (.constraint name columns) → Text.isBlankText name = true →
      columns ≠ [] → st.insert.onConflict = some ⟨none, .nothing⟩ ∧ st.keySources = columns.map .column := by
  refine ⟨⟨fun hk name columns ht hb ↦ ?_, fun hn ↦ ?_⟩, fun _ _ _ ↦ terms_eq_of_statement h, ?_⟩
  · obtain ⟨ho, hs⟩ := bare_of_blank h ht hb
    by_cases hc : columns = []
    · exact .inl hc
    · rw [rowKey_of_ne_nil hc] at hs
      exact .inr (map_column_inj.1 (hs.symm.trans (hk.bare _ ho).1))
  · refine keyArbitrated_of_bare h fun reaction ho ↦ ?_
    obtain ⟨-, arbiter, reaction', ha, -, -, rfl⟩ := Target.statement_eq_ok_iff.1 h
    cases ho
    have he := isEmpty_of_resolves (resolves_of_resolveArbiter ha)
    exact (keySources_eq_layout_iff he).2 fun name columns ht ↦ hn name columns ht (he _ ht)
  · intro name columns ht hb hc
    obtain ⟨ho, hs⟩ := bare_of_blank h ht hb
    rw [rowKey_of_ne_nil hc] at hs
    exact ⟨ho, hs⟩

theorem not_key_arbitrated_blank_name :
    let t : Target := ⟨none, "items", ["id"]⟩
    let b : Batch := {
      rows := [⟨[⟨"k", .int 1⟩, ⟨"v", .int 2⟩]⟩]
      conflictTarget := some (.constraint " " ["k"])
      action := .nothing }
    ∃ st, t.statement ["k", "v"] b = .ok st ∧ ¬KeyArbitrated t ["k", "v"] b st ∧
      st.insert.onConflict = some ⟨none, .nothing⟩ ∧ st.keySources = [.column "k"] := by
  intro t b
  obtain ⟨st, h⟩ : ∃ st, t.statement ["k", "v"] b = .ok st := ⟨_, rfl⟩
  have hb : Text.isBlankText " " = true := by decide
  obtain ⟨hiff, -, hbare⟩ := key_arbitrated_iff h
  refine ⟨st, h, fun hk ↦ ?_, hbare " " ["k"] rfl hb (by decide)⟩
  exact absurd (hiff.1 hk " " ["k"] rfl hb) (by decide)

end Upsert
