import Mathlib.Data.List.Induction
import Mathlib.Data.List.Nodup
import Mathlib.Tactic.SplitIfs
import Upsert.Row

namespace Upsert.Row

theorem eraseDups_concat (names : List String) (c : String) :
    (names ++ [c]).eraseDups = if c ∈ names then names.eraseDups else names.eraseDups ++ [c] := by
  rw [List.eraseDups_append]
  split_ifs with hc
  · simp [List.removeAll, hc]
  · simp [List.removeAll, hc, List.eraseDups_cons]

theorem eraseDups_of_nodup {names : List String} (h : names.Nodup) : names.eraseDups = names := by
  induction names using List.reverseRecOn with
  | nil => rfl
  | append_singleton names c ih =>
    have hc : c ∉ names := List.disjoint_singleton.1 (List.disjoint_of_nodup_append h)
    rw [eraseDups_concat, if_neg hc, ih h.of_append_left]

theorem get?_mk_cons (f : Field) (fields : List Field) (name : String) :
    get? ⟨f :: fields⟩ name = if f.name = name then some f.value else get? ⟨fields⟩ name := by
  by_cases h : f.name = name <;> simp [get?, h]

theorem get?_of_notMem {r : Row} {name : String} (h : name ∉ r.columns) : r.get? name = none := by
  rw [get?, Option.map_eq_none_iff, List.find?_eq_none]
  rintro f hf hn
  exact h (beq_iff_eq.1 hn ▸ List.mem_map_of_mem hf)

theorem get?_set (r : Row) (name : String) (v : Value) (name' : String) :
    (r.set name v).get? name' = if name = name' then some v else r.get? name' := by
  obtain ⟨fields⟩ := r
  simp only [set]
  induction fields with
  | nil => simp [setField, get?_mk_cons]
  | cons f fields ih =>
    rw [setField]
    by_cases hf : f.name = name
    · by_cases hn : name = name' <;> simp [hf, hn, get?_mk_cons]
    · rw [if_neg hf, get?_mk_cons, get?_mk_cons, ih]
      by_cases hn : name = name'
      · subst hn
        simp [hf]
      · simp [hn]

theorem set_eq_self {r : Row} {name : String} {v : Value} (h : r.get? name = some v) : r.set name v = r := by
  obtain ⟨fields⟩ := r
  simp only [set, mk.injEq]
  induction fields with
  | nil => simp [get?] at h
  | cons f fields ih =>
    rw [get?_mk_cons] at h
    rw [setField]
    by_cases hf : f.name = name
    · rw [if_pos hf] at h ⊢
      rw [← Option.some.inj h]
    · rw [if_neg hf] at h ⊢
      rw [ih h]

theorem get?_setAll_cases (r : Row) (fields : List Field) (name : String) :
    (∀ f ∈ fields, f.name ≠ name) ∧ (r.setAll fields).get? name = r.get? name ∨
      ∃ f ∈ fields, f.name = name ∧ (r.setAll fields).get? name = some f.value := by
  induction fields generalizing r with
  | nil => exact .inl ⟨by simp, rfl⟩
  | cons f fields ih =>
    rcases ih (r.set f.name f.value) with ⟨hn, hg⟩ | ⟨g, hg, hn, hv⟩
    · rw [get?_set] at hg
      by_cases hf : f.name = name
      · rw [if_pos hf] at hg
        exact .inr ⟨f, List.mem_cons_self, hf, hg⟩
      · rw [if_neg hf] at hg
        exact .inl ⟨List.forall_mem_cons.2 ⟨hf, hn⟩, hg⟩
    · exact .inr ⟨g, List.mem_cons_of_mem _ hg, hn, hv⟩

theorem mem_columns_setAll (r : Row) {fields : List Field} {f : Field} (hf : f ∈ fields) :
    f.name ∈ (r.setAll fields).columns := by
  by_contra hn
  rcases r.get?_setAll_cases fields f.name with ⟨hne, -⟩ | ⟨g, -, -, hv⟩
  · exact hne f hf rfl
  · rw [get?_of_notMem hn] at hv
    cases hv

theorem get?_setAll_map (r : Row) (f : String → Value) {names : List String} {name : String} (h : name ∈ names) :
    (r.setAll (names.map fun c ↦ ⟨c, f c⟩)).get? name = some (f name) := by
  rcases r.get?_setAll_cases (names.map fun c ↦ ⟨c, f c⟩) name with ⟨hn, -⟩ | ⟨x, hx, hn, hv⟩
  · exact absurd rfl (hn _ (List.mem_map_of_mem h))
  · obtain ⟨c, -, rfl⟩ := List.mem_map.1 hx
    obtain rfl : c = name := hn
    exact hv

theorem setAll_append (r : Row) (fields fields' : List Field) :
    r.setAll (fields ++ fields') = (r.setAll fields).setAll fields' := List.foldl_append

theorem get?_setAll_of_nodup {r : Row} {fields : List Field} {f : Field} (hn : (fields.map Field.name).Nodup)
    (hf : f ∈ fields) : (r.setAll fields).get? f.name = some f.value := by
  rcases r.get?_setAll_cases fields f.name with ⟨hne, -⟩ | ⟨g, hg, he, hv⟩
  · exact absurd rfl (hne f hf)
  · rwa [List.inj_on_of_nodup_map hn hg hf he] at hv

theorem setAll_eq_self {r : Row} {fields : List Field} (h : ∀ f ∈ fields, r.get? f.name = some f.value) :
    r.setAll fields = r := by
  induction fields with
  | nil => rfl
  | cons f fields ih =>
    obtain ⟨hf, hfs⟩ := List.forall_mem_cons.1 h
    rw [setAll, List.foldl_cons, set_eq_self hf]
    exact ih hfs

theorem mem_fields_set {r : Row} {name : String} {v : Value} {x : Field} (h : x ∈ (r.set name v).fields) :
    x ∈ r.fields ∨ x = ⟨name, v⟩ := by
  obtain ⟨fields⟩ := r
  simp only [set] at h ⊢
  induction fields with
  | nil => exact .inr (List.mem_singleton.1 h)
  | cons f fields ih =>
    rw [setField] at h
    split at h
    · rename_i hf
      rcases List.mem_cons.1 h with rfl | h
      · exact .inr (by rw [hf])
      · exact .inl (List.mem_cons_of_mem f h)
    · rcases List.mem_cons.1 h with rfl | h
      · exact .inl List.mem_cons_self
      · exact (ih h).imp_left (List.mem_cons_of_mem f)

theorem mem_fields_setAll {r : Row} {fields : List Field} {x : Field} (h : x ∈ (r.setAll fields).fields) :
    x ∈ r.fields ∨ x ∈ fields := by
  induction fields generalizing r with
  | nil => exact .inl h
  | cons f fields ih =>
    rcases ih h with h | h
    · rcases mem_fields_set h with h | rfl
      · exact .inl h
      · exact .inr List.mem_cons_self
    · exact .inr (List.mem_cons_of_mem f h)

def without (r : Row) (names : List String) : Row := ⟨r.fields.filter fun f ↦ f.name ∉ names⟩

theorem erase_eq_without {r : Row} (h : r.columns.Nodup) (name : String) :
    r.erase name = r.without [name] := by
  obtain ⟨fields⟩ := r
  simp only [columns] at h
  simp only [erase, without, mk.injEq, List.mem_singleton]
  induction fields with
  | nil => rfl
  | cons f fields ih =>
    obtain ⟨hf, hfs⟩ := List.nodup_cons.1 h
    by_cases hn : f.name = name
    · have hne : ∀ g ∈ fields, g.name ≠ name := by
        rintro g hg rfl
        exact hf (hn ▸ List.mem_map_of_mem hg)
      have hk : fields.filter (fun g ↦ g.name ≠ name) = fields :=
        List.filter_eq_self.2 (by simpa using hne)
      simpa [hn] using hk.symm
    · simp [hn, ih hfs]

theorem nodup_without {r : Row} (h : r.columns.Nodup) (names : List String) :
    (r.without names).columns.Nodup :=
  h.sublist (List.filter_sublist.map Field.name)

theorem get?_without (r : Row) (names : List String) (c : String) :
    (r.without names).get? c = if c ∈ names then none else r.get? c := by
  obtain ⟨fields⟩ := r
  simp only [without]
  induction fields with
  | nil => exact (ite_self none).symm
  | cons f fields ih =>
    rw [List.filter_cons, get?_mk_cons]
    by_cases hf : f.name ∈ names
    · rw [if_neg (by simpa using hf), ih]
      by_cases hc : f.name = c
      · rw [if_pos (hc ▸ hf), if_pos (hc ▸ hf)]
      · rw [if_neg hc]
    · rw [if_pos (decide_eq_true hf), get?_mk_cons, ih]
      by_cases hc : f.name = c
      · rw [if_pos hc, if_pos hc, if_neg (hc ▸ hf)]
      · rw [if_neg hc, if_neg hc]

theorem without_cons (r : Row) (name : String) (names : List String) :
    (r.without [name]).without names = r.without (name :: names) := by
  simp only [without, List.filter_filter, mk.injEq]
  exact List.filter_congr fun f _ ↦ by simp [Bool.and_comm]

theorem foldl_erase {r : Row} (h : r.columns.Nodup) (names : List String) :
    names.foldl erase r = r.without names := by
  induction names generalizing r with
  | nil =>
    obtain ⟨fields⟩ := r
    exact congrArg Row.mk (List.filter_eq_self.2 (by simp)).symm
  | cons name names ih =>
    rw [List.foldl_cons, erase_eq_without h, ih (nodup_without h _), without_cons]

theorem set_of_notMem {r : Row} {name : String} (h : name ∉ r.columns) (v : Value) :
    r.set name v = ⟨r.fields ++ [⟨name, v⟩]⟩ := by
  obtain ⟨fields⟩ := r
  simp only [set, mk.injEq]
  induction fields with
  | nil => rfl
  | cons f fields ih =>
    obtain ⟨hf, hfs⟩ := not_or.1 (mt List.mem_cons.2 h)
    rw [setField, if_neg (Ne.symm hf), ih hfs, List.cons_append]

theorem columns_set_of_mem {r : Row} {name : String} (h : name ∈ r.columns) (v : Value) :
    (r.set name v).columns = r.columns := by
  obtain ⟨fields⟩ := r
  simp only [columns, set] at h ⊢
  induction fields with
  | nil => cases h
  | cons f fields ih =>
    rw [setField]
    split
    · rfl
    · next hf =>
      have hfs : name ∈ fields.map Field.name := (List.mem_cons.1 h).resolve_left (Ne.symm hf)
      rw [List.map_cons, ih hfs, List.map_cons]

theorem nodup_columns_set {r : Row} (h : r.columns.Nodup) (name : String) (v : Value) :
    (r.set name v).columns.Nodup := by
  by_cases hn : name ∈ r.columns
  · rwa [columns_set_of_mem hn]
  · rw [set_of_notMem hn, columns, List.map_append]
    exact h.append (List.nodup_singleton name) (List.disjoint_singleton.2 hn)

/-- What the operations make, from the row without columns on. -/
inductive Built : Row → Prop
  | empty : Built empty
  | set {r : Row} (name : String) (v : Value) (h : Built r) : Built (r.set name v)
  | erase {r : Row} (name : String) (h : Built r) : Built (r.erase name)

theorem Built.setAll {r : Row} (h : r.Built) (fields : List Field) : (r.setAll fields).Built := by
  induction fields generalizing r with
  | nil => exact h
  | cons f fields ih => exact ih (h.set f.name f.value)

theorem Built.overlay {r : Row} (h : r.Built) (other : Row) : (r.overlay other).Built := h.setAll other.fields

theorem built_ofFields (fields : List Field) : (ofFields fields).Built := Built.empty.setAll fields

theorem ofFields_of_nodup {fields : List Field} (h : (fields.map Field.name).Nodup) : ofFields fields = ⟨fields⟩ := by
  induction fields using List.reverseRecOn with
  | nil => rfl
  | append_singleton fields f ih =>
    rw [List.map_append] at h
    have hn : f.name ∉ columns ⟨fields⟩ := List.disjoint_singleton.1 (List.disjoint_of_nodup_append h)
    rw [ofFields, setAll_append, ← ofFields, ih h.of_append_left]
    exact set_of_notMem hn f.value

/-- The operations make the rows that hold no column twice, and only those. -/
theorem built_iff_nodup {r : Row} : r.Built ↔ r.columns.Nodup := by
  constructor
  · intro h
    induction h with
    | empty => exact List.nodup_nil
    | set name v _ ih => exact nodup_columns_set ih name v
    | erase name _ ih => exact ih.sublist (List.eraseP_sublist.map Field.name)
  · intro h
    have hr : ofFields r.fields = r := ofFields_of_nodup h
    rw [← hr]
    exact built_ofFields r.fields

theorem get_of_mem {r : Row} (h : r.columns.Nodup) {f : Field} (hf : f ∈ r.fields) : r.get f.name = f.value := by
  obtain ⟨fields⟩ := r
  have hr : ofFields fields = ⟨fields⟩ := ofFields_of_nodup h
  rw [get, ← hr, ofFields, get?_setAll_of_nodup h hf, Option.getD_some]

end Upsert.Row
