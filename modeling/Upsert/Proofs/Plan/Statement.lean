import Upsert.Plan.Statement
import Upsert.Proofs.Except

namespace Upsert

open Sql (Arbiter Setting Reaction Insert Term)

variable {table : String} {target : Option ConflictTarget} {layout : Layout} {sources : List KeySource}

def Target.insertion (t : Target) (layout : Layout) (b : Batch) (arbiter : Option Arbiter) (reaction : Reaction) :
    Insert where
  table := t.tableName
  columns := layout
  rows := b.rows.map fun row ↦ layout.map fun c ↦ .value (row.get c)
  onConflict := some ⟨arbiter, reaction⟩
  returning := returning t b.returnFullRow (keySources b.conflictTarget layout)

theorem targetColumn_eq_ok {name : String} {t : Term} (h : targetColumn name = .ok t) : t = .column none name := by
  unfold targetColumn at h
  split at h <;> cases h
  rfl

theorem mapM_targetColumn {names : List String} {terms : List Term} (h : names.mapM targetColumn = .ok terms) :
    terms = names.map (.column none) :=
  Except.eq_map_of_mapM (fun _ _ ↦ targetColumn_eq_ok) h

theorem Target.statement_eq_ok_iff {t : Target} {b : Batch} {st : Statement} :
    t.statement layout b = .ok st ↔ layout ≠ [] ∧ ∃ arbiter reaction,
      resolveArbiter b.conflictTarget b.action b.indexPredicate = .ok arbiter ∧
      (∀ s ∈ keySources b.conflictTarget layout, s.name ∈ layout) ∧
      b.action.lower t.table b.conflictTarget layout (keySources b.conflictTarget layout) = .ok reaction ∧
      st = ⟨t.insertion layout b arbiter reaction, keySources b.conflictTarget layout⟩ := by
  by_cases hl : layout = []
  · subst hl
    exact ⟨fun h ↦ (by cases h), fun h ↦ absurd rfl h.1⟩
  · rw [statement, if_neg (by simpa using hl), Except.bind_eq_ok_iff, and_iff_right hl]
    refine exists_congr fun arbiter ↦ ?_
    dsimp only
    split
    · rename_i s hf
      have hs : s.name ∉ layout := by simpa using List.find?_some hf
      exact ⟨fun h ↦ (by cases h.2), fun ⟨_, _, hn, _⟩ ↦ absurd (hn s (List.mem_of_find?_eq_some hf)) hs⟩
    · rename_i hf
      have hn : ∀ s ∈ keySources b.conflictTarget layout, s.name ∈ layout := by simpa using hf
      rw [Except.bind_eq_ok_iff]
      constructor
      · rintro ⟨ha, reaction, hr, h⟩
        cases h
        exact ⟨reaction, ha, hn, hr, rfl⟩
      · rintro ⟨reaction, ha, -, hr, rfl⟩
        exact ⟨ha, reaction, hr, rfl⟩

theorem Action.lower_update_eq_ok_iff {set : UpdateSet} {condition : Option Expression} {reaction : Reaction} :
    (Action.update set condition).lower table target layout sources = .ok reaction ↔
      (set.isInserted = false → unkeyedConstraint? target = none) ∧ ∃ settings condition',
        set.lower table target layout sources = .ok settings ∧
        condition.mapM (Expression.lower (.table table)) = .ok condition' ∧
        reaction = .update settings condition' := by
  rw [lower]
  have hd : (do
      let settings ← set.lower table target layout sources
      return Reaction.update settings (← condition.mapM (Expression.lower (.table table)))) = .ok reaction ↔
      ∃ settings condition', set.lower table target layout sources = .ok settings ∧
        condition.mapM (Expression.lower (.table table)) = .ok condition' ∧
        reaction = .update settings condition' := by
    simp only [Except.bind_eq_ok_iff]
    constructor
    · rintro ⟨settings, hs, condition', hc, h⟩
      cases h
      exact ⟨settings, condition', hs, hc, rfl⟩
    · rintro ⟨settings, condition', hs, hc, rfl⟩
      exact ⟨settings, hs, condition', hc, rfl⟩
  split
  · rename_i hu hi
    exact ⟨fun h ↦ (by cases h), fun h ↦ (by rw [hu] at h; cases h.1 hi)⟩
  · rename_i hn
    rw [hd, and_iff_right]
    intro hi
    cases hu : unkeyedConstraint? target with
    | some name => exact absurd hi (hn name hu)
    | none => rfl

theorem UpdateSet.lower_eq_ok_iff {set : UpdateSet} {settings : List Setting} :
    set.lower table target layout sources = .ok settings ↔ ∃ asked,
      set.settings table target layout sources = .ok asked ∧
      settings = if asked = [] then preservingSettings table target layout else asked := by
  rw [lower, Except.bind_eq_ok_iff]
  refine exists_congr fun asked ↦ and_congr_right fun _ ↦ ?_
  cases asked with
  | nil => exact ⟨fun h ↦ (by cases h; rfl), fun h ↦ (by rw [h]; rfl)⟩
  | cons x xs => exact ⟨fun h ↦ (by cases h; rfl), fun h ↦ (by rw [h]; rfl)⟩

theorem Assignment.lower_eq_ok {a : Assignment} {x : Setting} (h : a.lower table sources = .ok x) :
    x.column = a.column ∧ a.value.lower (.table table) = .ok x.value := by
  unfold lower at h
  split at h
  · cases h
  · obtain ⟨t, ht, h⟩ := Except.bind_eq_ok_iff.1 h
    cases h
    exact ⟨rfl, ht⟩

end Upsert
