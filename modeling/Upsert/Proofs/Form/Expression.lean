import Upsert.Form.Expression
import Upsert.Proofs.Form.Value
import Upsert.Proofs.Plan.Parameters

namespace Upsert.Expression

mutual

def eq : Expression → Expression → Bool
  | .literal v, .literal w => v == w
  | .column a, .column b => a == b
  | .proposed a, .proposed b => a == b
  | .comparison op l r, .comparison op' l' r' => op == op' && l.eq l' && r.eq r'
  | .and es, .and fs => eqAll es fs
  | .or es, .or fs => eqAll es fs
  | .not e, .not f => e.eq f
  | .isNull e, .isNull f => e.eq f
  | .isNotNull e, .isNotNull f => e.eq f
  | _, _ => false

def eqAll : List Expression → List Expression → Bool
  | [], [] => true
  | e :: es, f :: fs => e.eq f && eqAll es fs
  | _, _ => false

end

instance : BEq Expression := ⟨eq⟩

theorem eqAll_eq (es fs : List Expression) : eqAll es fs = (es == fs) := by
  induction es generalizing fs with
  | nil => cases fs <;> rfl
  | cons e es ih =>
    cases fs with
    | nil => rfl
    | cons f fs =>
      rw [eqAll, ih]
      rfl

theorem toForms_eq (es : List Expression) : toForms es = es.map toForm := by
  induction es with
  | nil => rfl
  | cons e es ih => rw [toForms, ih, List.map_cons]

/-- No float is in it, no moment of a leap second, and no document out of order. -/
def IsExact (e : Expression) : Prop := ∀ v ∈ e.literals, v.IsExact

theorem isExact_of_mem {e : Expression} {es : List Expression} (h : ∀ v ∈ literalsOf es, v.IsExact) (he : e ∈ es) :
    e.IsExact := by
  rw [literalsOf_eq] at h
  exact fun v hv ↦ h v (List.mem_flatMap.2 ⟨e, he, hv⟩)

open Json Reader Value

theorem whole_toForm {e : Expression} (h : e.IsExact) : e.toForm.Whole := by
  induction e with
  | literal v => exact .single (Value.whole_toForm (h v (List.mem_singleton.2 rfl)))
  | column name => exact .single (.string name)
  | proposed name => exact .single (.string name)
  | comparison op lhs rhs ihl ihr =>
    obtain ⟨hl, hr⟩ := List.forall_mem_append.1 h
    apply Whole.single
    apply Whole.object
    simp only [List.forall_mem_cons]
    exact ⟨.string op.name, ihl hl, ihr hr, by simp⟩
  | and es ih =>
    rw [toForm, toForms_eq]
    exact .single (.map fun e he ↦ ih e he (isExact_of_mem h he))
  | or es ih =>
    rw [toForm, toForms_eq]
    exact .single (.map fun e he ↦ ih e he (isExact_of_mem h he))
  | not e ih => exact .single (ih h)
  | isNull e ih => exact .single (ih h)
  | isNotNull e ih => exact .single (ih h)

theorem toForm_ne_null (e : Expression) : e.toForm ≠ .null := by
  cases e <;> simp [toForm]

theorem exists_levels {tag : String} {j : Json} {levels : Nat} (h : (Json.object [(tag, j)]).depth ≤ levels) :
    ∃ k, levels = k + 1 ∧ j.depth ≤ k := by
  obtain ⟨k, hk, hj⟩ := exists_of_depth_object_le h
  exact ⟨k, hk, hj _ List.mem_cons_self⟩

theorem operator_reads (op : Comparison) : (Reader.word Comparison.words).Reads (.string op.name) (· = op) := by
  apply word_reads
  cases op <;> rfl

theorem operands_read {levels : Nat} {es : List Expression} (h : ∀ v ∈ literalsOf es, v.IsExact)
    (hd : (Json.array (toForms es)).depth ≤ levels)
    (ih : ∀ e ∈ es, e.IsExact → e.toForm.depth ≤ levels → (readerTo levels).Reads e.toForm (· == e)) :
    (readerTo levels).list.Reads (.array (toForms es)) (· == es) := by
  obtain ⟨k, rfl, hx⟩ := exists_of_depth_array_le hd
  rw [toForms_eq] at hx ⊢
  apply list_reads_beq
  intro e he
  have hk := hx _ (List.mem_map_of_mem he)
  exact ih e he (isExact_of_mem h he) (by omega)

theorem readerTo_reads {e : Expression} (h : e.IsExact) {levels : Nat} (hd : e.toForm.depth ≤ levels) :
    (readerTo levels).Reads e.toForm (· == e) := by
  induction e generalizing levels with
  | literal v =>
    obtain ⟨k, rfl, -⟩ := exists_levels hd
    have hv := Value.reads_toForm (h v (List.mem_singleton.2 rfl))
    exact tagged_reads rfl (hv.map fun _ hw ↦ hw)
  | column name =>
    obtain ⟨k, rfl, -⟩ := exists_levels hd
    exact tagged_reads rfl ((string_reads name).map fun s ↦ (beq_iff_eq (a := s)).2)
  | proposed name =>
    obtain ⟨k, rfl, -⟩ := exists_levels hd
    exact tagged_reads rfl ((string_reads name).map fun s ↦ (beq_iff_eq (a := s)).2)
  | comparison op lhs rhs ihl ihr =>
    obtain ⟨k, rfl, hk⟩ := exists_levels hd
    obtain ⟨m, rfl, hm⟩ := exists_of_depth_object_le hk
    simp only [List.forall_mem_cons] at hm
    obtain ⟨hl, hr⟩ := List.forall_mem_append.1 h
    have hlhs := ihl hl (Nat.le_succ_of_le hm.2.1)
    have hrhs := ihr hr (Nat.le_succ_of_le hm.2.2.1)
    have hops := Fields.and_reads "lhs" none none hlhs (by simp) (Fields.part_reads "rhs" none none hrhs)
    apply tagged_reads rfl
    apply (Fields.record_reads (Fields.and_reads "op" none none (operator_reads op) (by simp) hops)).map
    rintro ⟨op', l', r'⟩ ⟨ho, hl', hr'⟩
    show (op' == op && l'.eq lhs && r'.eq rhs) = true
    rw [Bool.and_eq_true, Bool.and_eq_true]
    exact ⟨⟨beq_iff_eq.2 ho, hl'⟩, hr'⟩
  | and es ih =>
    obtain ⟨k, rfl, hk⟩ := exists_levels hd
    apply tagged_reads rfl
    apply (operands_read h hk fun e he hex hle ↦ ih e he hex hle).map
    intro fs hfs
    exact (eqAll_eq fs es).trans hfs
  | or es ih =>
    obtain ⟨k, rfl, hk⟩ := exists_levels hd
    apply tagged_reads rfl
    apply (operands_read h hk fun e he hex hle ↦ ih e he hex hle).map
    intro fs hfs
    exact (eqAll_eq fs es).trans hfs
  | not e ih =>
    obtain ⟨k, rfl, hk⟩ := exists_levels hd
    exact tagged_reads rfl ((ih h hk).map fun _ he ↦ he)
  | isNull e ih =>
    obtain ⟨k, rfl, hk⟩ := exists_levels hd
    exact tagged_reads rfl ((ih h hk).map fun _ he ↦ he)
  | isNotNull e ih =>
    obtain ⟨k, rfl, hk⟩ := exists_levels hd
    exact tagged_reads rfl ((ih h hk).map fun _ he ↦ he)

theorem reads_toForm {e : Expression} (h : e.IsExact) : reader.Reads e.toForm (· == e) := by
  intro depth hd hm
  have hl : e.toForm.depth ≤ Outline.maxDepth + 1 := by omega
  exact readerTo_reads h hl depth hd hm

end Upsert.Expression
