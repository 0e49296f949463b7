import Upsert.Proofs.Plan.KeyKept
import Upsert.Proofs.Value.Equality

namespace Upsert

open Sql (Meaning Setting updated)

/-- Rows that conflict have the same values in the plain columns of the target, up to what is the same there. -/
def AgreeOn (R : Value → Value → Prop) (target : Option ConflictTarget) (e p : Row) : Prop :=
  ∀ c ∈ plainColumns target, R (e.get c) (p.get c)

/-- `r` has the proposed values of some columns and is the stored row elsewhere. -/
def TakesOver (R : Value → Value → Prop) (names : List String) (e p r : Row) : Prop :=
  (∀ c ∈ names, R (r.get c) (p.get c)) ∧ ∀ c ∉ names, R (r.get c) (e.get c)

namespace UpdateSet

def IsIdle (target : Option ConflictTarget) (layout : Layout) : UpdateSet → Prop
  | .inserted => layout ⊆ plainColumns target
  | .columns names => names = []
  | .assignments list => list = []

/-- `r` is what the set asks to be made of the stored row `e` where `p` is proposed. -/
def Meets (m : Meaning) (R : Value → Value → Prop) (table : String) (layout : Layout) (e p r : Row) :
    UpdateSet → Prop
  | .inserted => TakesOver R layout e p r
  | .columns names => TakesOver R names e p r
  | .assignments list =>
    ((list.map Assignment.column).Nodup → ∀ a ∈ list, ∃ x,
      a.value.lower (.table table) = .ok x ∧ R (r.get a.column) (x.eval m ⟨table, e, p⟩)) ∧
    ∀ c ∉ list.map Assignment.column, R (r.get c) (e.get c)

end UpdateSet

section

variable {table : String} {target : Option ConflictTarget} {layout : Layout} {sources : List KeySource}
  {set : UpdateSet} {settings : List Setting} {m : Meaning} {R : Value → Value → Prop} {e p r : Row}

theorem preservingSettings_ne_nil (hl : layout ≠ []) : preservingSettings table target layout ≠ [] := by
  unfold preservingSettings
  split
  · simpa using hl
  · next hc =>
    intro h
    exact hc (List.map_eq_nil_iff.1 h)

theorem get_updated_preserving (hR : Equivalence R) (ha : AgreeOn R target e p) (c : String) :
    R ((updated m ⟨table, e, p⟩ (preservingSettings table target layout)).get c) (e.get c) := by
  unfold preservingSettings
  split
  · obtain ⟨-, hg⟩ | ⟨x, hx, hc, hg⟩ := Sql.get_updated_cases m ⟨table, e, p⟩
      ((layout.take 1).map fun c ↦ ⟨c, .column (some table) c⟩) c
    · rw [hg]
      exact hR.refl _
    · obtain ⟨name, -, rfl⟩ := List.mem_map.1 hx
      obtain rfl : name = c := hc
      rw [hg, Sql.Term.eval, if_pos rfl]
      exact hR.refl _
  · rw [get_updated_proposed]
    split
    · next hm => exact hR.symm (ha c (List.mem_of_mem_filter hm))
    · exact hR.refl _

theorem takesOver_updated (hR : Equivalence R) (names : List String) :
    TakesOver R names e p (updated m ⟨table, e, p⟩ (names.map .proposed)) := by
  constructor
  · intro c hc
    rw [get_updated_proposed, if_pos hc]
    exact hR.refl _
  · intro c hc
    rw [get_updated_proposed, if_neg hc]
    exact hR.refl _

theorem takesOver_updated_filter (hR : Equivalence R) (ha : AgreeOn R target e p) :
    TakesOver R layout e p (updated m ⟨table, e, p⟩
      ((layout.filter fun c ↦ !(plainColumns target).contains c).map .proposed)) := by
  constructor
  · intro c hc
    rw [get_updated_proposed]
    split
    · exact hR.refl _
    · next hn =>
      have hm : c ∈ plainColumns target := by simpa [hc] using hn
      exact ha c hm
  · intro c hc
    rw [get_updated_proposed, if_neg (fun hm ↦ hc (List.mem_of_mem_filter hm))]
    exact hR.refl _

theorem get_updated_of_nodup {x : Setting} {s : Sql.Scene} (hn : (settings.map Setting.column).Nodup)
    (hx : x ∈ settings) : (updated m s settings).get x.column = x.value.eval m s := by
  obtain ⟨hne, -⟩ | ⟨y, hy, hc, hg⟩ := Sql.get_updated_cases m s settings x.column
  · exact absurd rfl (hne x hx)
  · rw [hg, List.inj_on_of_nodup_map hn hy hx hc]

theorem meets_updated_assignments (hR : Equivalence R) {list : List Assignment}
    (h : list.mapM (Assignment.lower table sources) = .ok settings) :
    (UpdateSet.assignments list).Meets m R table layout e p (updated m ⟨table, e, p⟩ settings) := by
  have hf := Except.mapM_eq_ok_iff.1 h
  have hcolumns : settings.map Setting.column = list.map Assignment.column := by
    rw [← List.forall₂_eq_eq_eq, List.forall₂_map_left_iff, List.forall₂_map_right_iff]
    exact hf.flip.imp fun _ _ hx ↦ (Assignment.lower_eq_ok hx).1
  constructor
  · intro hn a ha
    obtain ⟨x, hx, hax⟩ : ∃ x ∈ settings, a.lower table sources = .ok x :=
      Except.exists_of_mem_forall₂ hf.flip ha
    obtain ⟨hc, hv⟩ := Assignment.lower_eq_ok hax
    refine ⟨x.value, hv, ?_⟩
    rw [← hc, get_updated_of_nodup (hcolumns ▸ hn) hx]
    exact hR.refl _
  · intro c hc
    obtain ⟨-, hg⟩ | ⟨x, hx, rfl, -⟩ := Sql.get_updated_cases m ⟨table, e, p⟩ settings c
    · rw [hg]
      exact hR.refl _
    · exact absurd (hcolumns ▸ List.mem_map_of_mem hx) hc

theorem meets_updated (hR : Equivalence R) (ha : AgreeOn R target e p)
    (h : set.settings table target layout sources = .ok settings) :
    set.Meets m R table layout e p (updated m ⟨table, e, p⟩ settings) := by
  cases set with
  | inserted =>
    cases h
    exact takesOver_updated_filter hR ha
  | columns names =>
    rw [UpdateSet.settings] at h
    split at h
    · cases h
    · cases h
      exact takesOver_updated hR names
  | assignments list => exact meets_updated_assignments hR h

theorem isIdle_iff (h : set.settings table target layout sources = .ok settings) :
    set.IsIdle target layout ↔ settings = [] := by
  cases set with
  | inserted =>
    cases h
    simp [UpdateSet.IsIdle, List.subset_def]
  | columns names =>
    rw [UpdateSet.settings] at h
    split at h
    · cases h
    · cases h
      exact List.map_eq_nil_iff.symm
  | assignments list =>
    have hf := (Except.mapM_eq_ok_iff.1 h).length_eq
    rw [UpdateSet.IsIdle, ← List.length_eq_zero_iff, hf, List.length_eq_zero_iff]

theorem meets_of_isIdle (hR : Equivalence R) (ha : AgreeOn R target e p) (hi : set.IsIdle target layout)
    (h : ∀ c, R (r.get c) (e.get c)) : set.Meets m R table layout e p r := by
  cases set with
  | inserted => exact ⟨fun c hc ↦ hR.trans (h c) (ha c (hi hc)), fun c _ ↦ h c⟩
  | columns names =>
    rw [UpdateSet.IsIdle] at hi
    subst hi
    exact ⟨by simp, fun c _ ↦ h c⟩
  | assignments list =>
    rw [UpdateSet.IsIdle] at hi
    subst hi
    exact ⟨by simp, fun c _ ↦ h c⟩

end

/-- What an update makes of a stored row is what its set asks for. It sets some column, and where there is nothing to
set it leaves the row as it is. -/
theorem update_meets_set {R : Value → Value → Prop} (m : Meaning) (hR : Equivalence R) {t : Target} {layout : Layout}
    {b : Batch} {st : Statement} {set : UpdateSet} {condition : Option Expression}
    (h : t.statement layout b = .ok st) (hu : b.action = .update set condition) :
    ∃ arbiter settings condition', st.insert.onConflict = some ⟨arbiter, .update settings condition'⟩ ∧
      settings ≠ [] ∧ ∀ e p : Row, AgreeOn R b.conflictTarget e p →
        set.Meets m R t.table layout e p (updated m ⟨t.table, e, p⟩ settings) ∧
        (set.IsIdle b.conflictTarget layout →
          ∀ c, R ((updated m ⟨t.table, e, p⟩ settings).get c) (e.get c)) := by
  obtain ⟨hl, arbiter, reaction, -, -, hr, rfl⟩ := Target.statement_eq_ok_iff.1 h
  rw [hu] at hr
  obtain ⟨-, settings, condition', hs, -, rfl⟩ := Action.lower_update_eq_ok_iff.1 hr
  obtain ⟨asked, ha, rfl⟩ := UpdateSet.lower_eq_ok_iff.1 hs
  refine ⟨arbiter, _, condition', rfl, ?_, ?_⟩
  · split
    · exact preservingSettings_ne_nil hl
    · assumption
  · intro e p hep
    rw [isIdle_iff ha]
    split
    · next hn =>
      have hk (c : String) : R ((updated m ⟨t.table, e, p⟩
          (preservingSettings t.table b.conflictTarget layout)).get c) (e.get c) := get_updated_preserving hR hep c
      exact ⟨meets_of_isIdle hR hep ((isIdle_iff ha).2 hn) hk, fun _ ↦ hk⟩
    · next hn => exact ⟨meets_updated hR hep ha, fun h ↦ absurd h hn⟩

theorem update_meets_inserted_rescaled :
    let m : Meaning := { compare := fun _ _ _ ↦ none, extract := fun v k ↦ v.extractKey k }
    let row (k : Decimal) (n : Int64) : Row := ⟨[⟨"k", .decimal k⟩, ⟨"v", .int n⟩]⟩
    let e := row ⟨100, 2⟩ 1
    let p := row ⟨10, 1⟩ 2
    AgreeOn (fun v w ↦ v == w) (some (.columns ["k"])) e p ∧
      UpdateSet.inserted.Meets m (fun v w ↦ v == w) "items" ["k", "v"] e p
        (updated m ⟨"items", e, p⟩ [.proposed "v"]) := by
  intro m row e p
  let t : Target := ⟨none, "items", ["k"]⟩
  let b : Batch := { rows := [p], conflictTarget := some (.columns ["k"]), action := .update .inserted none }
  let st : Statement := {
    insert := {
      table := t.tableName
      columns := ["k", "v"]
      rows := [[.value (.decimal ⟨10, 1⟩), .value (.int 2)]]
      onConflict := some ⟨some (.index [.column none "k"] none), .update [.proposed "v"] none⟩
      returning := [.column none "k"] }
    keySources := [.column "k"] }
  have h : t.statement ["k", "v"] b = .ok st := rfl
  have hR : Equivalence fun v w : Value ↦ (v == w) = true := ⟨fun _ ↦ BEq.rfl, BEq.symm, BEq.trans⟩
  obtain ⟨arbiter, settings, condition, hc, -, hm⟩ := update_meets_set m hR h rfl
  cases hc
  have hep : AgreeOn (fun v w ↦ v == w) (some (.columns ["k"])) e p := by
    intro c hc
    obtain rfl := List.mem_singleton.1 hc
    decide
  exact ⟨hep, (hm e p hep).1⟩

end Upsert
