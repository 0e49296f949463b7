import Upsert.Form.Batch
import Upsert.Proofs.Form.RoundTrip
import Upsert.Proofs.Key.Checker
import Upsert.Proofs.Row
import Upsert.Proofs.Text.Dictionary

namespace Upsert

open Json Reader

namespace Layout

theorem mem_nameSet {r : Row} {c : String} : c ∈ nameSet r ↔ c ∈ r.columns := by
  have hm : c ∈ nameSet r ↔ (c, ()) ∈ r.columnSet.entries := by
    rw [nameSet, List.mem_map]
    exact ⟨fun ⟨e, he, hc⟩ ↦ hc ▸ he, fun he ↦ ⟨_, he, rfl⟩⟩
  rw [hm, ← r.columnSet.ascending.lookup_eq_some_iff, ← Dictionary.find?, Row.columnSet, Dictionary.find?_ofList,
    ← List.map_reverse]
  constructor
  · intro h
    obtain ⟨before, after, he, -⟩ := List.lookup_eq_some_iff.1 h
    have he : (c, ()) ∈ r.columns.reverse.map (·, ()) := he ▸ List.mem_append_right before List.mem_cons_self
    obtain ⟨d, hd, hcd⟩ := List.mem_map.1 he
    cases hcd
    exact List.mem_reverse.1 hd
  · intro h
    exact List.lookup_graph (fun _ ↦ ()) (List.mem_reverse.2 h)

theorem check_eq_ok {expected : List String} {index : ℕ} {rows : List Row} (h : check expected index rows = .ok ()) :
    ∀ r ∈ rows, nameSet r = expected := by
  induction rows generalizing index with
  | nil => simp
  | cons r rows ih =>
    rw [check] at h
    split at h
    · next hr => exact List.forall_mem_cons.2 ⟨hr, ih h⟩
    · cases h

theorem ofRows_eq_ok {r : Row} {rows : List Row} {layout : Layout} (h : ofRows (r :: rows) = .ok layout) :
    layout = r.columns ∧ ∀ s ∈ r :: rows, ∀ c, c ∈ s.columns ↔ c ∈ layout := by
  obtain ⟨_, hc, hl⟩ := Except.bind_eq_ok_iff.1 h
  cases hl
  refine ⟨rfl, ?_⟩
  intro s hs c
  have hn : nameSet s = nameSet r := by
    obtain rfl | hs := List.mem_cons.1 hs
    · rfl
    · exact check_eq_ok hc s hs
  rw [← mem_nameSet, hn, mem_nameSet]

end Layout

/-- The tuple has the values of the fields of the row, each field once, under the names of the fields. -/
def Row.IsCarried (r : Row) (columns : List String) (tuple : List Sql.Term) : Prop :=
  ∃ fields : List Field, fields.Perm r.fields ∧ columns = fields.map Field.name ∧ tuple = fields.map fun f ↦ .value f.value

section

variable {r : Row} {layout : Layout}

theorem nodup_of_isCarried {tuple : List Sql.Term} (hl : layout.Nodup) (h : r.IsCarried layout tuple) :
    r.columns.Nodup := by
  obtain ⟨fields, hp, rfl, -⟩ := h
  exact (hp.map Field.name).nodup_iff.1 hl

theorem isCarried_of_nodup (hl : layout.Nodup) (hr : r.columns.Nodup) (h : ∀ c, c ∈ r.columns ↔ c ∈ layout) :
    r.IsCarried layout (layout.map fun c ↦ .value (r.get c)) := by
  have hp : layout.Perm r.columns := (List.perm_ext_iff_of_nodup hl hr).2 fun c ↦ (h c).symm
  have hf : r.columns.map (fun c ↦ Field.mk c (r.get c)) = r.fields := by
    rw [Row.columns, List.map_map]
    nth_rewrite 2 [← List.map_id r.fields]
    apply List.map_congr_left
    intro f hf
    rw [Function.comp_apply, Row.get_of_mem hr hf, id_eq]
  refine ⟨layout.map fun c ↦ ⟨c, r.get c⟩, ?_, ?_, ?_⟩
  · exact hf ▸ hp.map _
  · rw [List.map_map]
    exact (List.map_id layout).symm
  · rw [List.map_map]
    rfl

end

/-- A prepared batch inserts no column twice and drops no field if, and only if, its rows are such as the operations
on rows make. -/
theorem columns_carried_iff_built {t : Target} {b : Batch} {st : Statement} (h : t.prepare b = .ok st) :
    st.insert.columns.Nodup ∧ List.Forall₂ (·.IsCarried st.insert.columns) b.rows st.insert.rows ↔
      ∀ r ∈ b.rows, r.Built := by
  obtain ⟨layout, hl, hs, -⟩ := Target.prepare_eq_ok_iff.1 h
  obtain ⟨-, arbiter, reaction, -, -, -, rfl⟩ := Target.statement_eq_ok_iff.1 hs
  show layout.Nodup ∧ List.Forall₂ (·.IsCarried layout) b.rows
    (b.rows.map fun r ↦ layout.map fun c ↦ .value (r.get c)) ↔ _
  simp only [List.forall₂_map_right_iff, List.forall₂_same, Row.built_iff_nodup]
  constructor
  · intro hc r hr
    exact nodup_of_isCarried hc.1 (hc.2 r hr)
  · intro hn
    cases hb : b.rows with
    | nil => exact absurd hb (Target.rows_ne_nil_of_prepare h)
    | cons r rows =>
      rw [hb] at hl hn
      obtain ⟨he, hc⟩ := Layout.ofRows_eq_ok hl
      have hd : layout.Nodup := he ▸ hn r List.mem_cons_self
      exact ⟨hd, fun s hs ↦ isCarried_of_nodup hd (hn s hs) (hc s hs)⟩

theorem columns_not_carried_repeated :
    let t : Target := ⟨none, "items", ["id"]⟩
    let b : Batch := {
      rows := [⟨[⟨"k", .int 1⟩, ⟨"v", .int 2⟩, ⟨"k", .int 3⟩]⟩]
      conflictTarget := some (.columns ["k"])
      action := .nothing }
    Batch.reader.readText b.toForm.text = .ok b ∧ ∃ st, t.prepare b = .ok st ∧
      st.insert.columns = ["k", "v", "k"] ∧ st.insert.rows = [[.value (.int 1), .value (.int 2), .value (.int 1)]] ∧
      ¬(st.insert.columns.Nodup ∧ List.Forall₂ (·.IsCarried st.insert.columns) b.rows st.insert.rows) := by
  intro t b
  have he : b.IsExact := ⟨by simp [b, Row.IsExact, Value.IsExact], trivial, by simp [b]⟩
  have hr : Batch.reader.readText b.toForm.text = .ok b := by
    rw [readText_text Batch.reader (Batch.whole_toForm he)]
    rfl
  let st : Statement := {
    insert := {
      table := t.tableName
      columns := ["k", "v", "k"]
      rows := [[.value (.int 1), .value (.int 2), .value (.int 1)]]
      onConflict := some ⟨some (.index [.column none "k"] none), .nothing⟩
      returning := [.column none "id", .column none "k"] }
    keySources := [.column "k"] }
  have h : t.prepare b = .ok st := rfl
  refine ⟨hr, st, h, rfl, rfl, ?_⟩
  rw [columns_carried_iff_built h]
  intro hb
  have hn : ["k", "v", "k"].Nodup := Row.built_iff_nodup.1 (hb _ List.mem_cons_self)
  exact absurd hn (by decide)

theorem BatchFile.built_of_read {text : String} {file : BatchFile} (h : BatchFile.read text = .ok file) :
    ∀ r ∈ file.batch.rows, r.Built := by
  obtain ⟨o, ho⟩ := exists_of_readText h
  obtain ⟨x, -, rfl⟩ := Except.map_eq_ok_iff.1 ho
  intro r hr
  obtain ⟨members, -, rfl⟩ := List.mem_map.1 hr
  exact Row.built_ofFields _

end Upsert
