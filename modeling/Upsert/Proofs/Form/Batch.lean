import Upsert.Form.Batch
import Upsert.Proofs.Form.Expression

namespace Upsert

open Json Reader

deriving instance DecidableEq for Target, KeyedColumn, ConflictTarget

theorem whole_stringsForm (names : List String) : (stringsForm names).Whole := .map fun s _ ↦ .string s

theorem stringsForm_reads (names : List String) : Reader.string.list.Reads (stringsForm names) (· = names) :=
  list_reads_eq fun s _ ↦ string_reads s

namespace Field

theorem whole_toForm {f : Field} (h : f.value.IsExact) : f.toForm.Whole := by
  apply Whole.object
  simp only [List.forall_mem_cons]
  exact ⟨.string f.name, Value.whole_toForm h, by simp⟩

theorem reads_toForm {f : Field} (h : f.value.IsExact) :
    reader.Reads f.toForm fun g ↦ g.name = f.name ∧ g.value == f.value := by
  have hv := Fields.part_reads "value" none none (Value.reads_toForm h)
  apply (Fields.record_reads (Fields.and_reads "name" none none (string_reads f.name) (by simp) hv)).map
  exact fun _ hx ↦ hx

end Field

namespace Row

def IsExact (r : Row) : Prop := ∀ f ∈ r.fields, f.value.IsExact

theorem whole_toForm {r : Row} (h : r.IsExact) : r.toForm.Whole :=
  .single (.map fun f hf ↦ Field.whole_toForm (h f hf))

theorem beq_of_forall₂ {fs gs : List Field}
    (h : List.Forall₂ (fun f g ↦ f.name = g.name ∧ f.value == g.value) fs gs) : (⟨fs⟩ : Row) == ⟨gs⟩ := by
  have hn : List.Forall₂ (fun f g ↦ f.name = g.name) fs gs := h.imp fun _ _ hx ↦ hx.1
  have hv : List.Forall₂ (fun f g ↦ f.value == g.value) fs gs := h.imp fun _ _ hx ↦ hx.2
  show (columns ⟨fs⟩ == columns ⟨gs⟩ && fs.map Field.value == gs.map Field.value) = true
  rw [Bool.and_eq_true, beq_iff_eq]
  constructor
  · rw [columns, columns, ← List.forall₂_eq_eq_eq, List.forall₂_map_left_iff, List.forall₂_map_right_iff]
    exact hn
  · apply Reader.beq_of_forall₂
    rw [List.forall₂_map_left_iff, List.forall₂_map_right_iff]
    exact hv

theorem reads_toForm {r : Row} (h : r.IsExact) : reader.Reads r.toForm (· == r) := by
  have hf := list_reads fun f hf ↦ Field.reads_toForm (h f hf)
  apply (Fields.record_reads (Fields.part_reads "fields" none none hf)).map
  intro fs hfs
  exact beq_of_forall₂ hfs

end Row

namespace Target

theorem whole_toForm (t : Target) : t.toForm.Whole := by
  apply Whole.object
  simp only [List.forall_mem_cons]
  exact ⟨.optional fun s _ ↦ .string s, .string t.table, whole_stringsForm t.primaryKey, by simp⟩

theorem reads_toForm (t : Target) : reader.Reads t.toForm (· = t) := by
  have hs := optional_reads_eq (o := t.schema) fun s _ ↦ ⟨by simp, string_reads s⟩
  have hk := Fields.part_reads "primary_key" (some defaultKey) (some defaultKey) (stringsForm_reads t.primaryKey)
  have ht := Fields.and_reads "table" none none (string_reads t.table) (by simp) hk
  apply (Fields.record_reads (Fields.and_reads "schema" (some none) (some none) hs (by simp) ht)).map
  intro x hx
  obtain ⟨hs, ht, hk⟩ := hx
  show (⟨x.1, x.2.1, x.2.2⟩ : Target) = t
  rw [hs, ht, hk]

end Target

namespace KeyedColumn

theorem whole_toForm (k : KeyedColumn) : k.toForm.Whole := by
  apply Whole.object
  simp only [List.forall_mem_cons]
  exact ⟨.string k.column, .string k.key, by simp⟩

theorem reads_toForm (k : KeyedColumn) : reader.Reads k.toForm (· = k) := by
  have hk := Fields.part_reads "key" none none (string_reads k.key)
  apply (Fields.record_reads (Fields.and_reads "column" none none (string_reads k.column) (by simp) hk)).map
  intro x hx
  obtain ⟨hc, hk⟩ := hx
  show (⟨x.1, x.2⟩ : KeyedColumn) = k
  rw [hc, hk]

end KeyedColumn

namespace ConflictTarget

theorem whole_toForm (t : ConflictTarget) : t.toForm.Whole := by
  cases t with
  | columns names => exact .single (whole_stringsForm names)
  | keyed pairs => exact .single (.map fun k _ ↦ k.whole_toForm)
  | constraint name key =>
    apply Whole.single
    apply Whole.object
    simp only [List.forall_mem_cons]
    exact ⟨.string name, whole_stringsForm key, by simp⟩

theorem toForm_ne_null (t : ConflictTarget) : t.toForm ≠ .null := by
  cases t <;> simp [toForm]

theorem reads_toForm (t : ConflictTarget) : reader.Reads t.toForm (· = t) := by
  cases t with
  | columns names => exact tagged_reads rfl ((stringsForm_reads names).map_eq columns)
  | keyed pairs => exact tagged_reads rfl ((list_reads_eq fun k _ ↦ KeyedColumn.reads_toForm k).map_eq keyed)
  | constraint name key =>
    have hk := Fields.part_reads "columns" (some []) (some []) (stringsForm_reads key)
    apply tagged_reads rfl
    apply (Fields.record_reads (Fields.and_reads "name" none none (string_reads name) (by simp) hk)).map
    intro x hx
    obtain ⟨hn, hk⟩ := hx
    show constraint x.1 x.2 = constraint name key
    rw [hn, hk]

end ConflictTarget

namespace Assignment

def eq (a b : Assignment) : Bool := a.column == b.column && a.value == b.value

instance : BEq Assignment := ⟨eq⟩

theorem whole_toForm {a : Assignment} (h : a.value.IsExact) : a.toForm.Whole := by
  apply Whole.object
  simp only [List.forall_mem_cons]
  exact ⟨.string a.column, Expression.whole_toForm h, by simp⟩

theorem reads_toForm {a : Assignment} (h : a.value.IsExact) : reader.Reads a.toForm (· == a) := by
  have hv := Fields.part_reads "value" none none (Expression.reads_toForm h)
  apply (Fields.record_reads (Fields.and_reads "column" none none (string_reads a.column) (by simp) hv)).map
  intro x hx
  exact Bool.and_eq_true_iff.2 ⟨beq_iff_eq.2 hx.1, hx.2⟩

end Assignment

namespace UpdateSet

def eq : UpdateSet → UpdateSet → Bool
  | .inserted, .inserted => true
  | .columns a, .columns b => a == b
  | .assignments a, .assignments b => a == b
  | _, _ => false

instance : BEq UpdateSet := ⟨eq⟩

def IsExact : UpdateSet → Prop
  | .assignments list => ∀ a ∈ list, a.value.IsExact
  | .inserted | .columns _ => True

theorem whole_toForm {s : UpdateSet} (h : s.IsExact) : s.toForm.Whole := by
  cases s with
  | inserted => exact .string _
  | columns names => exact .single (whole_stringsForm names)
  | assignments list => exact .single (.map fun a ha ↦ Assignment.whole_toForm (h a ha))

theorem reads_toForm {s : UpdateSet} (h : s.IsExact) : reader.Reads s.toForm (· == s) := by
  cases s with
  | inserted =>
    apply (tagged_alone_reads rfl).imp
    intro b hb
    rw [hb]
    rfl
  | columns names =>
    apply tagged_reads rfl
    apply (stringsForm_reads names).map
    intro ns hns
    exact (beq_iff_eq (a := ns)).2 hns
  | assignments list =>
    apply tagged_reads rfl
    exact (list_reads_beq fun a ha ↦ Assignment.reads_toForm (h a ha)).map fun _ hs ↦ hs

end UpdateSet

namespace Action

def eq : Action → Action → Bool
  | .nothing, .nothing => true
  | .update s c, .update t d => s == t && c == d
  | _, _ => false

instance : BEq Action := ⟨eq⟩

def IsExact : Action → Prop
  | .nothing => True
  | .update set condition => set.IsExact ∧ ∀ e ∈ condition, e.IsExact

theorem whole_toForm {a : Action} (h : a.IsExact) : a.toForm.Whole := by
  cases a with
  | nothing => exact .string _
  | update set condition =>
    apply Whole.single
    apply Whole.object
    simp only [List.forall_mem_cons]
    exact ⟨UpdateSet.whole_toForm h.1, .optional fun e he ↦ Expression.whole_toForm (h.2 e he), by simp⟩

theorem reads_toForm {a : Action} (h : a.IsExact) : reader.Reads a.toForm (· == a) := by
  cases a with
  | nothing =>
    apply (tagged_alone_reads rfl).imp
    intro b hb
    rw [hb]
    rfl
  | update set condition =>
    have hc := optional_reads_beq fun e he ↦ ⟨e.toForm_ne_null, Expression.reads_toForm (h.2 e he)⟩
    have hf := Fields.and_reads "set" (some .inserted) (some .inserted) (UpdateSet.reads_toForm h.1) (by simp)
      (Fields.part_reads "condition" (some none) (some none) hc)
    apply tagged_reads rfl
    apply (Fields.record_reads hf).map
    exact fun x hx ↦ Bool.and_eq_true_iff.2 hx

end Action

namespace Batch

def eq (b c : Batch) : Bool :=
  b.rows == c.rows && b.conflictTarget == c.conflictTarget && b.action == c.action &&
    b.indexPredicate == c.indexPredicate && b.returnFullRow == c.returnFullRow

instance : BEq Batch := ⟨eq⟩

structure IsExact (b : Batch) : Prop where
  rows : ∀ r ∈ b.rows, r.IsExact
  action : b.action.IsExact
  indexPredicate : ∀ e ∈ b.indexPredicate, e.IsExact

theorem whole_toForm {b : Batch} (h : b.IsExact) : b.toForm.Whole := by
  apply Whole.object
  simp only [List.forall_mem_cons]
  exact ⟨.map fun r hr ↦ Row.whole_toForm (h.rows r hr), .optional fun t _ ↦ t.whole_toForm,
    Action.whole_toForm h.action, .optional fun e he ↦ Expression.whole_toForm (h.indexPredicate e he),
    .boolean b.returnFullRow, by simp⟩

theorem reads_toForm {b : Batch} (h : b.IsExact) : reader.Reads b.toForm (· == b) := by
  have hr := list_reads_beq fun r hr ↦ Row.reads_toForm (h.rows r hr)
  have ht := optional_reads_eq (o := b.conflictTarget) fun t _ ↦ ⟨t.toForm_ne_null, t.reads_toForm⟩
  have hp := optional_reads_beq fun e he ↦ ⟨e.toForm_ne_null, Expression.reads_toForm (h.indexPredicate e he)⟩
  have hf := Fields.part_reads "return_full_row" (some false) (some false) (boolean_reads b.returnFullRow)
  have hpf := Fields.and_reads "index_predicate" (some none) (some none) hp (by simp) hf
  have hapf := Fields.and_reads "action" none none (Action.reads_toForm h.action) (by simp) hpf
  have htapf := Fields.and_reads "conflict_target" (some none) none ht (by simp) hapf
  apply (Fields.record_reads (Fields.and_reads "rows" none none hr (by simp) htapf)).map
  intro x hx
  obtain ⟨rows, target, action, predicate, full⟩ := x
  obtain ⟨hrows, htarget, haction, hpredicate, hfull⟩ := hx
  show eq ⟨rows, target, action, predicate, full⟩ b = true
  simp only [eq, Bool.and_eq_true]
  exact ⟨⟨⟨⟨hrows, beq_iff_eq.2 htarget⟩, haction⟩, hpredicate⟩, beq_iff_eq.2 hfull⟩

end Batch

end Upsert
