import Upsert.Proofs.Plan.KeyKept
import Upsert.Proofs.Server.Execution
import Upsert.Proofs.Value.Fingerprint

namespace Upsert

open Sql (Term Setting Reaction Insert Scene Server Slot updated)

variable (names : List String)

/-- The key of a row, unless a part of it is null. Values that are equal have one plain form. -/
def targetKey (r : Row) : Option (List Value) :=
  let key := names.map fun c ↦ (r.get c).plain
  if key.any Value.isNull then none else some key

variable {names}

theorem isNull_plain (v : Value) : v.plain.isNull = v.isNull := by
  cases v <;> rfl

theorem isSome_targetKey {r : Row} : (targetKey names r).isSome ↔ ∀ c ∈ names, (r.get c).isNull = false := by
  have hn : (names.map fun c ↦ (r.get c).plain).any Value.isNull = names.any fun c ↦ (r.get c).isNull := by
    rw [List.any_map]
    exact congrArg _ (funext fun c ↦ isNull_plain _)
  simp [targetKey, hn]

theorem targetKey_congr {e p : Row} (h : ∀ c ∈ names, e.get c == p.get c) :
    targetKey names e = targetKey names p := by
  have hm : (names.map fun c ↦ (e.get c).plain) = names.map fun c ↦ (p.get c).plain :=
    List.map_congr_left fun c hc ↦ (Value.beq_iff _ _).1 (h c hc)
  rw [targetKey, targetKey, hm]

theorem map_plain_of_targetKey {r : Row} {key : List Value} (h : targetKey names r = some key) :
    (names.map fun c ↦ (r.get c).plain) = key := by
  rw [targetKey] at h
  split at h
  · cases h
  · exact Option.some.inj h

theorem targetKey_eq_iff {e p : Row} (hp : (targetKey names p).isSome) :
    targetKey names e = targetKey names p ↔ ∀ c ∈ names, e.get c == p.get c := by
  refine ⟨fun h ↦ ?_, targetKey_congr⟩
  obtain ⟨key, hk⟩ := Option.isSome_iff_exists.1 hp
  have hm := (map_plain_of_targetKey (h.trans hk)).trans (map_plain_of_targetKey hk).symm
  exact fun c hc ↦ (Value.beq_iff _ _).2 (List.map_inj_left.1 hm c hc)

def UniqueKeys (names : List String) (rows : List Row) : Prop := (rows.map (targetKey names)).reduceOption.Nodup

section

variable {s : Server} {t : Target} {layout : Layout} {b : Batch} {ps : List Row} {cs : List String}

def columnIndex (names : List String) : Sql.Arbiter := .index (names.map (.column none)) none

abbrev columnInsertion (t : Target) (layout : Layout) (b : Batch) (names : List String) (reaction : Reaction) :
    Insert :=
  t.insertion layout b (some (columnIndex names)) reaction

theorem conflicts_iff {e p : Row} (hp : (targetKey names p).isSome) :
    s.conflicts (some (columnIndex names)) e p ↔ targetKey names e = targetKey names p := by
  have hc : s.conflicts (some (columnIndex names)) e p = names.all fun c ↦ !(e.get c).isNull && e.get c == p.get c := by
    simp [Server.conflicts, columnIndex, Server.holds, Term.eval, Scene.alone, List.all_map, Function.comp_def]
  rw [targetKey_eq_iff hp, hc, List.all_eq_true]
  refine forall₂_congr fun c hm ↦ ?_
  rw [Bool.and_eq_true, and_iff_right_iff_imp]
  intro h
  have hn := isSome_targetKey.1 hp c hm
  rw [← isNull_plain, ← (Value.beq_iff _ _).1 h, isNull_plain] at hn
  rw [hn]
  rfl

def Proposes (layout : Layout) (p row : Row) : Prop := ∀ c ∈ layout, p.get? c = some (row.get c)

theorem forall₂_mapIdx {α β γ : Type} {R : γ → α → Prop} {f : α → β} {g : Nat → β → γ} {as : List α}
    (h : ∀ n a, R (g n (f a)) a) : List.Forall₂ R ((as.map f).mapIdx g) as := by
  induction as generalizing g with
  | nil => exact .nil
  | cons a as ih =>
    rw [List.map_cons, List.mapIdx_cons]
    exact .cons (h 0 a) (ih fun n a ↦ h (n + 1) a)

theorem forall₂_proposals (arbiter : Option Sql.Arbiter) (reaction : Reaction) (n : Nat) :
    List.Forall₂ (Proposes layout) (s.proposals (t.insertion layout b arbiter reaction) n) b.rows := by
  have hp (k : Nat) (row : Row) : Proposes layout
      (s.proposed (t.insertion layout b arbiter reaction) k (layout.map fun c ↦ .value (row.get c))) row := by
    intro c hc
    have hf : layout.zipWith Field.mk ((layout.map fun c ↦ Term.value (row.get c)).map
        (Term.eval s.meaning (.alone .empty))) = layout.map fun c ↦ ⟨c, row.get c⟩ := by
      simp [List.zipWith_map_right, List.zipWith_self, Term.eval]
    have hr : s.proposed (t.insertion layout b arbiter reaction) k (layout.map fun c ↦ .value (row.get c)) =
        (s.defaults k).setAll (layout.map fun c ↦ ⟨c, row.get c⟩) := by
      rw [← hf]
      rfl
    rw [hr]
    exact (s.defaults k).get?_setAll_map row.get hc
  exact forall₂_mapIdx fun k row ↦ hp (n + k) row

theorem Proposes.get_eq {p row : Row} (h : Proposes layout p row) {c : String} (hc : c ∈ layout) :
    p.get c = row.get c := by
  rw [Row.get, h c hc, Option.getD_some]

theorem targetKey_of_proposes (hs : names ⊆ layout) {p row : Row} (h : Proposes layout p row) :
    targetKey names p = targetKey names row := by
  refine targetKey_congr fun c hc ↦ ?_
  rw [h.get_eq (hs hc)]
  exact BEq.refl _

theorem map_targetKey (hs : names ⊆ layout) {rows : List Row} (h : List.Forall₂ (Proposes layout) ps rows) :
    ps.map (targetKey names) = rows.map (targetKey names) := by
  induction h with
  | nil => rfl
  | cons hp _ ih => rw [List.map_cons, List.map_cons, targetKey_of_proposes hs hp, ih]

theorem keyed_nothing (hk : ∀ p ∈ ps, (targetKey names p).isSome) (hn : (ps.map (targetKey names)).Nodup) :
    Server.Keyed (targetKey names) (fun e _ ↦ ⟨e, false⟩) s
      (columnInsertion t layout b names .nothing) ps where
  isSome := hk
  nodup := hn
  conflicts_iff p hp _ := conflicts_iff (hk p hp)
  meet_eq _ _ _ _ := rfl
  key_eq _ _ _ _ := rfl

def overwritten (s : Server) (table : String) (cs : List String) (e p : Row) : Row :=
  updated s.meaning ⟨table, e, p⟩ (cs.map .proposed)

theorem targetKey_overwritten {table : String} {e p : Row} (he : targetKey names e = targetKey names p)
    (hp : (targetKey names p).isSome) : targetKey names (overwritten s table cs e p) = targetKey names e := by
  rw [he]
  refine targetKey_congr fun c hc ↦ ?_
  rw [overwritten, get_updated_proposed]
  split
  · exact BEq.refl _
  · exact (targetKey_eq_iff hp).1 he c hc

theorem keyed_update (hk : ∀ p ∈ ps, (targetKey names p).isSome) (hn : (ps.map (targetKey names)).Nodup) :
    Server.Keyed (targetKey names) (fun e p ↦ ⟨overwritten s t.table cs e p, true⟩) s
      (columnInsertion t layout b names (.update (cs.map .proposed) none)) ps where
  isSome := hk
  nodup := hn
  conflicts_iff p hp _ := conflicts_iff (hk p hp)
  meet_eq _ _ _ _ := rfl
  key_eq p hp _ he := targetKey_overwritten he (hk p hp)

theorem overwritten_eq (s : Server) (table : String) (cs : List String) (e p : Row) :
    overwritten s table cs e p = e.setAll (cs.map fun c ↦ ⟨c, p.get c⟩) := by
  rw [overwritten, updated, List.map_map]
  rfl

theorem get?_overwritten {table : String} {e p : Row} {c : String} (hc : c ∈ cs) :
    (overwritten s table cs e p).get? c = some (p.get c) := by
  rw [overwritten_eq]
  exact e.get?_setAll_map p.get hc

theorem overwritten_eq_self {table : String} {e p : Row} (h : ∀ c ∈ cs, e.get? c = some (p.get c)) :
    overwritten s table cs e p = e := by
  rw [overwritten_eq]
  refine Row.setAll_eq_self fun x hx ↦ ?_
  obtain ⟨c, hc, rfl⟩ := List.mem_map.1 hx
  exact h c hc

variable {st : Statement}

theorem arbiter_columns {a : Sql.Arbiter} (h : (ConflictTarget.columns names).arbiter none = .ok a) :
    a = columnIndex names := by
  obtain ⟨terms, ht, h⟩ := Except.bind_eq_ok_iff.1 h
  cases h
  rw [mapM_targetColumn ht]
  rfl

structure ColumnPlan (t : Target) (layout : Layout) (b : Batch) (names : List String) (reaction : Reaction)
    (st : Statement) : Prop where
  subset : names ⊆ layout
  insert_eq : st.insert = columnInsertion t layout b names reaction
  sources_eq : st.keySources = names.map .column
  returning_eq : st.insert.returning = returning t b.returnFullRow (names.map .column)

theorem exists_columnPlan (h : t.statement layout b = .ok st) (ht : b.conflictTarget = some (.columns names))
    (hn : names ≠ []) (hp : b.indexPredicate = none) :
    ∃ reaction, b.action.lower t.table (some (.columns names)) layout (names.map .column) = .ok reaction ∧
      ColumnPlan t layout b names reaction st := by
  obtain ⟨-, arbiter, reaction, ha, hk, hr, rfl⟩ := Target.statement_eq_ok_iff.1 h
  have hs : keySources b.conflictTarget layout = names.map .column := by
    rw [ht]
    cases names with
    | nil => exact absurd rfl hn
    | cons c cs => rfl
  have hf : (some (ConflictTarget.columns names)).filter (fun t ↦ !t.isEmpty) = some (.columns names) := by
    simp [Option.filter_some, ConflictTarget.isEmpty, hn]
  have harbiter : arbiter = some (columnIndex names) := by
    rw [ht, hp, resolveArbiter, hf] at ha
    obtain ⟨a, hc, rfl⟩ := Except.map_eq_ok_iff.1 ha
    rw [arbiter_columns hc]
  rw [hs, ht] at hr
  rw [hs] at hk
  refine ⟨reaction, hr, fun c hc ↦ hk (.column c) (List.mem_map_of_mem hc), by rw [harbiter], hs, ?_⟩
  rw [Target.insertion, hs]

def UpdateSet.setColumns (names : List String) (layout : Layout) : UpdateSet → List String
  | .inserted => layout.filter fun c ↦ !names.contains c
  | .columns cs => cs
  | .assignments _ => []

theorem settings_of_columns {set : UpdateSet} {settings : List Setting} {table : String} {sources : List KeySource}
    (hn : names ≠ []) (hs : names ⊆ layout) (ha : ∀ list, set ≠ .assignments list)
    (h : set.lower table (some (.columns names)) layout sources = .ok settings) :
    ∃ cs, cs ⊆ layout ∧ set.setColumns names layout ⊆ cs ∧ settings = cs.map .proposed := by
  obtain ⟨asked, hasked, rfl⟩ := UpdateSet.lower_eq_ok_iff.1 h
  have hcs : set.setColumns names layout ⊆ layout ∧ asked = (set.setColumns names layout).map .proposed := by
    cases set with
    | inserted =>
      cases hasked
      exact ⟨List.filter_subset_self _, rfl⟩
    | columns cs =>
      rw [UpdateSet.settings] at hasked
      split at hasked <;> cases hasked
      rename_i hf
      have hm : ∀ c ∈ cs, c ∈ layout := by simpa using hf
      exact ⟨hm, rfl⟩
    | assignments list => exact absurd rfl (ha list)
  split
  · rename_i he
    rw [hcs.2, List.map_eq_nil_iff] at he
    have hf : (plainColumns (some (.columns names))).filter (fun c ↦ layout.contains c) = names :=
      List.filter_eq_self.2 fun c hc ↦ List.contains_iff_mem.2 (hs hc)
    refine ⟨names, hs, by simp [he], ?_⟩
    rw [preservingSettings, hf]
    cases names with
    | nil => exact absurd rfl hn
    | cons c cs => rfl
  · exact ⟨_, hcs.1, List.Subset.refl _, hcs.2⟩

end

end Upsert
