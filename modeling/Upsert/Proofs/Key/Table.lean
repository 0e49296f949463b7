import Mathlib.Data.List.Perm.Lattice
import Mathlib.Data.Finset.Card
import Upsert.Engine.Key
import Upsert.Proofs.Value.Equality

namespace Upsert

namespace Key

theorem beq_iff (k l : Key) : k == l ↔ k.map Value.plain = l.map Value.plain := by
  induction k generalizing l with
  | nil => cases l <;> simp
  | cons v k ih =>
    cases l with
    | nil => simp
    | cons w l => simp [Value.beq_iff, ih]

theorem same_iff (k l : Key) : k.same l ↔
    k.map Value.plain = l.map Value.plain ∧ k.map Value.fingerprint = l.map Value.fingerprint := by
  simp [same, beq_iff]

/-- Keys that find one another in a table. -/
def setoid : Setoid Key where
  r k l := k.same l
  iseqv := {
    refl k := by simp [same_iff]
    symm h := by simp_all [same_iff]
    trans h h' := by simp_all [same_iff] }

def Class : Type := Quotient setoid

instance : DecidableEq Class :=
  @Quotient.decidableEq Key setoid fun k l ↦ inferInstanceAs (Decidable (k.same l))

def toClass (k : Key) : Class := Quotient.mk setoid k

theorem toClass_eq_iff {k l : Key} : k.toClass = l.toClass ↔ k.same l :=
  ⟨Quotient.exact, fun h ↦ Quotient.sound h⟩

theorem same_eq_decide (k l : Key) : k.same l = decide (k.toClass = l.toClass) := by
  simp [toClass_eq_iff]

end Key

namespace KeyTable

variable {α : Type} (k : Key) (a : α) (t : KeyTable α)

def classes : List Key.Class := t.map fun e ↦ e.1.toClass

@[simp] theorem classes_nil : classes ([] : KeyTable α) = [] := rfl

@[simp] theorem classes_cons (e : Key × α) : classes (e :: t) = e.1.toClass :: classes t := rfl

@[simp] theorem find?_nil : find? k ([] : KeyTable α) = none := rfl

@[simp] theorem find?_cons (e : Key × α) :
    find? k (e :: t) = if e.1.toClass = k.toClass then some e.2 else find? k t := by
  unfold find?
  rw [List.find?_cons, Key.same_eq_decide]
  by_cases h : e.1.toClass = k.toClass <;> simp [h]

theorem isSome_find? : (find? k t).isSome ↔ k.toClass ∈ classes t := by
  induction t with
  | nil => simp
  | cons e t ih =>
    by_cases h : e.1.toClass = k.toClass
    · simp [h]
    · simp [h, ih, Ne.symm h]

theorem find?_eq_none : find? k t = none ↔ k.toClass ∉ classes t := by
  rw [← isSome_find?, Option.isSome_iff_ne_none, not_not]

theorem find?_eq_some_iff {k : Key} {a : α} {t : KeyTable α} (h : (classes t).Nodup) :
    find? k t = some a ↔ ∃ l, (l, a) ∈ t ∧ l.toClass = k.toClass := by
  induction t with
  | nil => simp
  | cons e t ih =>
    obtain ⟨he, ht⟩ := List.nodup_cons.1 h
    rw [find?_cons]
    by_cases hk : e.1.toClass = k.toClass
    · rw [if_pos hk]
      constructor
      · intro ha
        cases ha
        exact ⟨e.1, List.mem_cons_self, hk⟩
      · intro ⟨l, hm, hl⟩
        obtain hm | hm := List.mem_cons.1 hm
        · rw [← hm]
        · have hc : l.toClass ∈ classes t := List.mem_map_of_mem hm
          exact absurd hc (hk.trans hl.symm ▸ he)
    · rw [if_neg hk, ih ht]
      constructor
      · intro ⟨l, hm, hl⟩
        exact ⟨l, List.mem_cons_of_mem e hm, hl⟩
      · intro ⟨l, hm, hl⟩
        obtain hm | hm := List.mem_cons.1 hm
        · exact absurd (hm ▸ hl) hk
        · exact ⟨l, hm, hl⟩

theorem classes_insert : classes (insert k a t) =
    if k.toClass ∈ classes t then classes t else classes t ++ [k.toClass] := by
  induction t with
  | nil => simp [insert]
  | cons e t ih =>
    rw [insert, Key.same_eq_decide]
    by_cases h : e.1.toClass = k.toClass
    · simp [h]
    · by_cases hm : k.toClass ∈ classes t <;> simp [h, ih, hm, Ne.symm h]

theorem insert_of_notMem (h : k.toClass ∉ classes t) : insert k a t = t ++ [(k, a)] := by
  induction t with
  | nil => rfl
  | cons e t ih =>
    obtain ⟨he, ht⟩ : k.toClass ≠ e.1.toClass ∧ k.toClass ∉ classes t := by simpa using h
    rw [insert, Key.same_eq_decide, ih ht]
    simp [he.symm]

theorem nodup_insert {t : KeyTable α} (h : (classes t).Nodup) : (classes (insert k a t)).Nodup := by
  rw [classes_insert]
  split
  · exact h
  · rename_i hm
    exact List.nodup_append.2 ⟨h, List.nodup_singleton _, by
      rintro c hc d hd rfl
      exact hm (List.mem_singleton.1 hd ▸ hc)⟩

theorem mem_classes_insert (c : Key.Class) :
    c ∈ classes (insert k a t) ↔ c = k.toClass ∨ c ∈ classes t := by
  rw [classes_insert]
  split
  · rename_i hm
    exact ⟨.inr, fun h ↦ h.elim (fun h ↦ h ▸ hm) id⟩
  · simp [or_comm]

theorem classes_erase : classes (erase k t) = (classes t).erase k.toClass := by
  induction t with
  | nil => rfl
  | cons e t ih =>
    unfold erase at ih ⊢
    rw [List.eraseP_cons, Key.same_eq_decide]
    by_cases h : e.1.toClass = k.toClass <;> simp [h, ih]

theorem erase_of_find?_eq_none {k : Key} {t : KeyTable α} (h : find? k t = none) : erase k t = t := by
  refine List.eraseP_of_forall_not fun e he ↦ ?_
  rw [Key.same_eq_decide, Bool.not_eq_true, decide_eq_false_iff_not]
  rintro hk
  exact (find?_eq_none k t).1 h (hk ▸ List.mem_map_of_mem he)

theorem find?_erase {t : KeyTable α} (h : (classes t).Nodup) (l : Key) :
    find? l (erase k t) = if k.toClass = l.toClass then none else find? l t := by
  induction t with
  | nil => simp [erase]
  | cons e t ih =>
    obtain ⟨he, ht⟩ := List.nodup_cons.1 h
    have ih := ih ht
    unfold erase at ih ⊢
    rw [List.eraseP_cons, Key.same_eq_decide]
    by_cases hk : e.1.toClass = k.toClass
    · by_cases hl : k.toClass = l.toClass
      · have hn : find? l t = none := (find?_eq_none l t).2 (hl ▸ hk ▸ he)
        simp [hk, hl, hn]
      · simp [hk, hl]
    · by_cases hl : k.toClass = l.toClass
      · have hel : e.1.toClass ≠ l.toClass := hl ▸ hk
        simpa [hl, hel] using ih
      · simp only [hk, hl, if_false, decide_false, cond_false, find?_cons] at ih ⊢
        rw [ih]

end KeyTable

end Upsert
