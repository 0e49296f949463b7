import Upsert.Proofs.Engine.Columns
import Upsert.Proofs.Plan.Acceptance
import Upsert.Proofs.Reconciliation.Attribution

namespace Upsert

theorem Row.get_perm {r s : Row} (h : r.columns.Nodup) (hp : r.fields.Perm s.fields) : r.get = s.get := by
  have hn : r.columns.Perm s.columns := hp.map Field.name
  funext c
  by_cases hc : c ∈ r.columns
  · obtain ⟨f, hf, rfl⟩ := List.mem_map.1 hc
    rw [get_of_mem h hf, get_of_mem (hn.nodup_iff.1 h) (hp.mem_iff.1 hf)]
  · rw [get, get, get?_of_notMem hc, get?_of_notMem (mt hn.mem_iff.2 hc)]

namespace Layout

variable {r s : Row} {rows rows' : List Row} {layout : Layout}

theorem pairwise_nameSet (r : Row) : (nameSet r).Pairwise (· < ·) := List.pairwise_map.2 r.columnSet.ascending

theorem nameSet_eq_iff : nameSet r = nameSet s ↔ ∀ c, c ∈ r.columns ↔ c ∈ s.columns := by
  simp only [← mem_nameSet]
  constructor
  · intro h c
    rw [h]
  · intro h
    have hd (x : Row) : (nameSet x).Nodup := by
      apply (pairwise_nameSet x).imp
      intro c d hl he
      exact String.lt_irrefl d (he ▸ hl)
    have hp : (nameSet r).Perm (nameSet s) := (List.perm_ext_iff_of_nodup (hd r) (hd s)).2 h
    apply hp.eq_of_pairwise _ (pairwise_nameSet r) (pairwise_nameSet s)
    intro c d _ _ hc hd
    exact absurd (String.lt_trans hc hd) (String.lt_irrefl c)

theorem nameSet_perm (h : r.fields.Perm s.fields) : nameSet r = nameSet s :=
  nameSet_eq_iff.2 fun _ ↦ (h.map Field.name).mem_iff

theorem check_congr (h : List.Forall₂ (fun r s ↦ nameSet r = nameSet s) rows rows') (expected : List String)
    (index : ℕ) : check expected index rows = check expected index rows' := by
  induction h generalizing index with
  | nil => rfl
  | cons h _ ih => rw [check, check, h, ih]

theorem ofRows_congr (hf : rows.head? = rows'.head?)
    (h : List.Forall₂ (fun r s ↦ nameSet r = nameSet s) rows rows') : ofRows rows = ofRows rows' := by
  cases h with
  | nil => rfl
  | cons _ hs =>
    cases hf
    rw [ofRows, ofRows, check_congr hs]

theorem check_eq_ok_iff {expected : List String} {index : ℕ} :
    check expected index rows = .ok () ↔ ∀ r ∈ rows, nameSet r = expected := by
  refine ⟨check_eq_ok, ?_⟩
  induction rows generalizing index with
  | nil => exact fun _ ↦ rfl
  | cons r rows ih =>
    intro h
    obtain ⟨hr, hs⟩ := List.forall_mem_cons.1 h
    rw [check, if_pos hr, ih hs]

theorem ofRows_eq_ok_iff :
    ofRows (r :: rows) = .ok layout ↔ layout = r.columns ∧ ∀ s ∈ rows, nameSet s = nameSet r := by
  rw [ofRows, Except.bind_eq_ok_iff]
  constructor
  · intro ⟨_, hc, h⟩
    cases h
    exact ⟨rfl, check_eq_ok hc⟩
  · intro ⟨hl, h⟩
    exact ⟨(), check_eq_ok_iff.2 h, hl ▸ rfl⟩

end Layout

theorem Key.ofInput_congr {r s : Row} (h : r.get = s.get) (sources : List KeySource) :
    ofInput sources r = ofInput sources s := by
  have hs (x : KeySource) : x.sentValue r = x.sentValue s := by
    cases x with
    | column c => exact congrFun h c
    | keyed c k l => exact congrArg (·.extractKey k) (congrFun h c)
  rw [ofInput_eq, ofInput_eq]
  exact List.map_congr_left fun x _ ↦ congrArg Value.canonical (hs x)

section

variable {rows rows' : List Row} (h : List.Forall₂ (fun r s ↦ r.get = s.get) rows rows')

include h

theorem KeyChecker.checkFrom_congr (sources : List KeySource) (c : KeyChecker) (index : ℕ) :
    checkFrom sources c index rows = checkFrom sources c index rows' := by
  induction h generalizing c index with
  | nil => rfl
  | cons h _ ih =>
    rw [checkFrom, checkFrom, Key.ofInput_congr h]
    exact bind_congr fun c ↦ ih c (index + 1)

theorem map_value_congr (layout : Layout) :
    rows.map (fun r ↦ layout.map fun c ↦ Sql.Term.value (r.get c)) =
      rows'.map fun r ↦ layout.map fun c ↦ Sql.Term.value (r.get c) := by
  induction h with
  | nil => rfl
  | cons h _ ih => rw [List.map_cons, List.map_cons, ih, h]

theorem Target.statement_congr (t : Target) (layout : Layout) (b : Batch) :
    t.statement layout { b with rows } = t.statement layout { b with rows := rows' } := by
  simp only [statement, map_value_congr h layout]

theorem Target.prepare_congr (t : Target) (b : Batch) (hl : Layout.ofRows rows = Layout.ofRows rows') :
    t.prepare { b with rows } = t.prepare { b with rows := rows' } := by
  simp only [prepare, hl, statement_congr h]
  refine bind_congr fun layout ↦ bind_congr fun st ↦ ?_
  rw [KeyChecker.checkRows, KeyChecker.checkFrom_congr h, ← KeyChecker.checkRows]

end

section

variable {t : Target} {b : Batch} {layout layout' : Layout} {rows : List Row}

section

variable (hl : ∀ c, c ∈ layout ↔ c ∈ layout')

include hl

theorem mem_keySources_congr (target : Option ConflictTarget) (s : KeySource) :
    s ∈ keySources target layout ↔ s ∈ keySources target layout' := by
  unfold keySources
  split
  · rfl
  · rfl
  · rfl
  · simp only [List.mem_map, hl]

theorem UpdateSet.Admissible.congr {target : Option ConflictTarget} {set : UpdateSet}
    (h : set.Admissible target layout) : set.Admissible target layout' where
  keyed := h.keyed
  inserted names hs c hc := (hl c).1 (h.inserted names hs c hc)
  keepsKey list hs a ha s hk := h.keepsKey list hs a ha s ((mem_keySources_congr hl target s).2 hk)
  named := h.named

theorem Batch.Admissible.congr (h : b.Admissible layout) (rows : List Row) :
    { b with rows }.Admissible layout' where
  nonempty := by
    obtain ⟨c, hc⟩ := List.exists_mem_of_ne_nil layout h.nonempty
    exact List.ne_nil_of_mem ((hl c).1 hc)
  targeted := h.targeted
  indexed := h.indexed
  named := h.named
  sent s hs := (hl s.name).1 (h.sent s ((mem_keySources_congr hl b.conflictTarget s).2 hs))
  set set condition ha := (h.set set condition ha).congr hl
  condition := h.condition

theorem nodup_inputKey_congr (target : Option ConflictTarget)
    (h : (rows.map (KeyChecker.inputKey (keySources target layout))).Nodup) :
    (rows.map (KeyChecker.inputKey (keySources target layout'))).Nodup := by
  rw [List.Nodup, List.pairwise_map] at h ⊢
  apply h.imp
  intro r s hn he
  apply hn
  rw [Reconciliation.inputKey_eq_iff] at he ⊢
  intro x hx
  exact he x ((mem_keySources_congr hl target x).1 hx)

end

theorem exists_prepare_iff : (∃ st, t.prepare b = .ok st) ↔ ∃ layout, Layout.ofRows b.rows = .ok layout ∧
    b.Admissible layout ∧ (b.rows.map (KeyChecker.inputKey (keySources b.conflictTarget layout))).Nodup := by
  constructor
  · intro ⟨st, h⟩
    obtain ⟨layout, hl, hs, hc⟩ := Target.prepare_eq_ok_iff.1 h
    obtain ⟨-, _, _, -, -, -, rfl⟩ := Target.statement_eq_ok_iff.1 hs
    exact ⟨layout, hl, admissible_of_statement hs, (KeyChecker.checkRows_eq_ok_iff _ _).1 hc⟩
  · intro ⟨layout, hl, ha, hn⟩
    cases hs : t.statement layout b with
    | error e => exact absurd ha (breaks_of_statement hs).not_admissible
    | ok st =>
      obtain ⟨-, _, _, -, -, -, rfl⟩ := Target.statement_eq_ok_iff.1 hs
      exact ⟨_, Target.prepare_eq_ok_iff.2 ⟨layout, hl, hs, (KeyChecker.checkRows_eq_ok_iff _ _).2 hn⟩⟩

/-- The columns of the rows are those of any one of them, and their keys stay apart. -/
theorem exists_prepare_of_perm (hp : b.rows.Perm rows) (h : ∃ st, t.prepare b = .ok st) :
    ∃ st, t.prepare { b with rows } = .ok st := by
  obtain ⟨layout, hl, ha, hn⟩ := exists_prepare_iff.1 h
  cases hb : b.rows with
  | nil =>
    rw [hb] at hl
    cases hl
    exact absurd rfl ha.nonempty
  | cons r rs =>
    cases rows with
    | nil => rw [hb] at hp; exact absurd hp.eq_nil (List.cons_ne_nil r rs)
    | cons s ss =>
      rw [hb] at hl
      obtain ⟨rfl, hr⟩ := Layout.ofRows_eq_ok_iff.1 hl
      have hall : ∀ x ∈ s :: ss, Layout.nameSet x = Layout.nameSet r := by
        intro x hx
        have hx : x ∈ r :: rs := hb ▸ hp.mem_iff.2 hx
        obtain rfl | hx := List.mem_cons.1 hx
        · rfl
        · exact hr x hx
      have hs := hall s List.mem_cons_self
      have hc := fun c ↦ (Layout.nameSet_eq_iff.1 hs c).symm
      refine exists_prepare_iff.2 ⟨s.columns, ?_, ha.congr hc _, ?_⟩
      · exact Layout.ofRows_eq_ok_iff.2 ⟨rfl, fun x hx ↦ (hall x (List.mem_cons_of_mem s hx)).trans hs.symm⟩
      · exact nodup_inputKey_congr hc b.conflictTarget ((hp.map _).nodup_iff.1 hn)

end

/-- Rows behind the first may have their fields in any order, and the batch is planned or refused the same; rows in
another order are accepted as before. -/
theorem prepare_rearranged {t : Target} {b : Batch} (h : ∀ r ∈ b.rows, r.columns.Nodup) (rows : List Row) :
    (rows.head? = b.rows.head? → List.Forall₂ (fun r s : Row ↦ r.fields.Perm s.fields) b.rows rows →
      t.prepare { b with rows } = t.prepare b) ∧
    (rows.Perm b.rows → ((∃ st, t.prepare { b with rows } = .ok st) ↔ ∃ st, t.prepare b = .ok st)) := by
  constructor
  · intro hf hp
    have hg : List.Forall₂ (fun r s ↦ r.get = s.get) b.rows rows :=
      ((List.forall₂_and_left _ _).2 ⟨h, hp⟩).imp fun _ _ h ↦ Row.get_perm h.1 h.2
    have hl : Layout.ofRows b.rows = Layout.ofRows rows :=
      Layout.ofRows_congr hf.symm (hp.imp fun _ _ ↦ Layout.nameSet_perm)
    exact (Target.prepare_congr hg t b hl).symm
  · intro hp
    exact ⟨exists_prepare_of_perm hp, exists_prepare_of_perm hp.symm⟩

theorem prepare_rearranged_titles :
    let t : Target := ⟨none, "items", ["id"]⟩
    let first : Row := ⟨[⟨"code", .int 1⟩, ⟨"title", .string "a"⟩]⟩
    let b : Batch := {
      rows := [first, ⟨[⟨"title", .null⟩, ⟨"code", .int 2⟩]⟩]
      conflictTarget := none
      action := .nothing }
    let refielded : List Row := [first, ⟨[⟨"code", .int 2⟩, ⟨"title", .null⟩]⟩]
    t.prepare { b with rows := refielded } = t.prepare b ∧
      ((∃ st, t.prepare { b with rows := b.rows.reverse } = .ok st) ↔ ∃ st, t.prepare b = .ok st) := by
  intro t first b refielded
  have h : ∀ r ∈ b.rows, r.columns.Nodup := by decide
  constructor
  · apply (prepare_rearranged h refielded).1 rfl
    exact .cons (.refl _) (.cons (.swap _ _ _) .nil)
  · exact (prepare_rearranged h b.rows.reverse).2 (List.reverse_perm b.rows)

end Upsert
