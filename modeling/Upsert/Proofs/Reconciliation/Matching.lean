import Mathlib.Data.Finset.Card
import Mathlib.Data.List.Nodup
import Upsert.Engine.Upserter
import Upsert.Proofs.Key.Table
import Upsert.Proofs.Row

namespace Upsert.Reconciliation

variable (sources : List KeySource)

def returnedKey (row : Row) : Key.Class := (Key.ofReturned sources row).toClass

def sentKey (returned : List Row) (row : Row) : Key.Class :=
  (Key.ofSent sources (KeyShape.ofReturned sources returned) row).toClass

def returnedKeys (returned : List Row) : List Key.Class := returned.map (returnedKey sources)

def sentKeys (returned sent : List Row) : List Key.Class := sent.map (sentKey sources returned)

/-- The number of returned rows, less that of the returned keys that were sent. -/
def leftOver (sent returned : List Row) : Nat :=
  returned.length -
    ((returnedKeys sources returned).toFinset ∩ (sentKeys sources returned sent).toFinset).card

theorem foldl_insert (returned : List Row) (t : KeyTable Row) (h : t.classes.Nodup) :
    let t' := returned.foldl (fun t row ↦ t.insert (Key.ofReturned sources row) row) t
    t'.classes.Nodup ∧ ∀ c, c ∈ t'.classes ↔ c ∈ returnedKeys sources returned ∨ c ∈ t.classes := by
  induction returned generalizing t with
  | nil => simpa [returnedKeys] using h
  | cons row rows ih =>
    obtain ⟨hn, hm⟩ := ih _ (KeyTable.nodup_insert (Key.ofReturned sources row) row h)
    refine ⟨hn, fun c ↦ (hm c).trans ?_⟩
    simp only [KeyTable.mem_classes_insert, returnedKeys, returnedKey, List.map_cons, List.mem_cons]
    tauto

theorem nodup_table (returned : List Row) : (table sources returned).classes.Nodup :=
  (foldl_insert sources returned [] List.nodup_nil).1

theorem toFinset_table (returned : List Row) :
    (table sources returned).classes.toFinset = (returnedKeys sources returned).toFinset := by
  ext c
  have h := (foldl_insert sources returned [] List.nodup_nil).2 c
  simpa [table] using h

theorem foldl_insert_of_nodup (returned : List Row) (t : KeyTable Row)
    (h : (t.classes ++ returnedKeys sources returned).Nodup) :
    returned.foldl (fun t row ↦ t.insert (Key.ofReturned sources row) row) t =
      t ++ returned.map fun row ↦ (Key.ofReturned sources row, row) := by
  induction returned generalizing t with
  | nil => simp
  | cons row rows ih =>
    have hk : (Key.ofReturned sources row).toClass ∉ t.classes := fun hm ↦
      List.disjoint_of_nodup_append h hm List.mem_cons_self
    rw [List.foldl_cons, KeyTable.insert_of_notMem _ _ _ hk, ih]
    · simp
    · simpa [KeyTable.classes, returnedKeys, returnedKey] using h

theorem find?_table {returned : List Row} (h : (returnedKeys sources returned).Nodup) (k : Key) :
    (table sources returned).find? k = returned.find? fun r ↦ returnedKey sources r = k.toClass := by
  rw [table, foldl_insert_of_nodup sources returned [] (by simpa using h), List.nil_append]
  induction returned with
  | nil => rfl
  | cons row rows ih =>
    have ih := ih (List.nodup_cons.1 h).2
    by_cases hk : returnedKey sources row = k.toClass
    · simp [hk, show (Key.ofReturned sources row).toClass = k.toClass from hk]
    · simp [hk, show (Key.ofReturned sources row).toClass ≠ k.toClass from hk, ih]

section

variable (shape : KeyShape)

def taken (row : Row) (found : Option Row) : Outcome :=
  found.elim .skipped fun stored ↦ .applied (merged sources row stored)

theorem isApplied_taken (row : Row) (found : Option Row) :
    (taken sources row found).isApplied = found.isSome := by
  cases found <;> rfl

theorem taken_eq_applied_iff (row row' : Row) (found : Option Row) :
    taken sources row found = .applied row' ↔ ∃ r, found = some r ∧ row' = merged sources row r := by
  cases found <;> simp [taken, eq_comm]

theorem outcomes_cons (t : KeyTable Row) (row : Row) (rows : List Row) :
    outcomes sources shape t (row :: rows) =
      taken sources row (t.find? (Key.ofSent sources shape row)) ::
        outcomes sources shape (t.erase (Key.ofSent sources shape row)) rows := by
  rw [outcomes]
  cases h : t.find? (Key.ofSent sources shape row) with
  | some stored => rfl
  | none => rw [KeyTable.erase_of_find?_eq_none h]; rfl

theorem getElem?_outcomes {t : KeyTable Row} (h : t.classes.Nodup) (rows : List Row) (i : Nat) :
    (outcomes sources shape t rows)[i]? = rows[i]?.map fun row ↦
      if (Key.ofSent sources shape row).toClass ∈
        (rows.take i).map (fun r ↦ (Key.ofSent sources shape r).toClass) then .skipped
      else taken sources row (t.find? (Key.ofSent sources shape row)) := by
  induction rows generalizing t i with
  | nil => simp [outcomes]
  | cons r rows ih =>
    rw [outcomes_cons]
    cases i with
    | zero => simp
    | succ i =>
      have he : (t.erase (Key.ofSent sources shape r)).classes.Nodup := by
        rw [KeyTable.classes_erase]
        exact h.erase _
      rw [List.getElem?_cons_succ, List.getElem?_cons_succ, ih he]
      congr 1
      funext row
      rw [KeyTable.find?_erase _ h, List.take_succ_cons, List.map_cons]
      by_cases hr : (Key.ofSent sources shape r).toClass = (Key.ofSent sources shape row).toClass
      · simp [hr, taken]
      · simp [hr, Ne.symm hr]

theorem length_outcomes (t : KeyTable Row) (rows : List Row) :
    (outcomes sources shape t rows).length = rows.length := by
  induction rows generalizing t with
  | nil => rfl
  | cons row rows ih => rw [outcomes_cons, List.length_cons, List.length_cons, ih]

theorem card_inter_insert {l : List Key.Class} (h : l.Nodup) (c : Key.Class) (s : Finset Key.Class) :
    (l.toFinset ∩ insert c s).card = ((l.erase c).toFinset ∩ s).card + if c ∈ l then 1 else 0 := by
  have he : (l.erase c).toFinset = l.toFinset.erase c := by
    ext d
    simp [h.mem_erase_iff]
  by_cases hc : c ∈ l
  · rw [Finset.inter_insert_of_mem (List.mem_toFinset.2 hc), he, Finset.erase_inter, if_pos hc,
      ← Finset.card_erase_add_one (Finset.mem_insert_self c _), Finset.erase_insert_eq_erase]
  · rw [Finset.inter_insert_of_notMem (mt List.mem_toFinset.1 hc), List.erase_of_not_mem hc,
      if_neg hc, Nat.add_zero]

theorem appliedCount_outcomes {t : KeyTable Row} (h : t.classes.Nodup) (rows : List Row) :
    Outcome.appliedCount (outcomes sources shape t rows) = (t.classes.toFinset ∩
      (rows.map fun row ↦ (Key.ofSent sources shape row).toClass).toFinset).card := by
  induction rows generalizing t with
  | nil => simp [outcomes, Outcome.appliedCount]
  | cons row rows ih =>
    have he : (t.classes.erase (Key.ofSent sources shape row).toClass).Nodup := h.erase _
    have ih := ih (t := t.erase (Key.ofSent sources shape row)) (by rwa [KeyTable.classes_erase])
    rw [outcomes_cons, Outcome.appliedCount, List.countP_cons, ← Outcome.appliedCount, ih,
      KeyTable.classes_erase, isApplied_taken, List.map_cons, List.toFinset_cons]
    simp only [KeyTable.isSome_find?]
    exact (card_inter_insert h _ _).symm

end

variable (sent returned : List Row)

def walked : List Outcome :=
  outcomes sources (KeyShape.ofReturned sources returned) (table sources returned) sent

theorem reconcile_eq : reconcile sources sent returned =
    if leftOver sources sent returned = 0 then .ok (walked sources sent returned)
    else .error (.unreconciledRows (leftOver sources sent returned)) := by
  rw [reconcile, appliedCount_outcomes sources _ (nodup_table sources returned), toFinset_table]
  rfl

theorem reconcile_eq_ok_iff {outcomes : List Outcome} : reconcile sources sent returned = .ok outcomes ↔
    leftOver sources sent returned = 0 ∧ outcomes = walked sources sent returned := by
  rw [reconcile_eq]
  split
  · rename_i h
    rw [Except.ok.injEq, eq_comm]
    exact (and_iff_right h).symm
  · rename_i h
    exact ⟨fun he ↦ (by cases he), fun he ↦ absurd he.1 h⟩

theorem nodup_of_length_le_card {l : List Key.Class} (h : l.length ≤ l.toFinset.card) : l.Nodup :=
  Multiset.toFinset_card_eq_card_iff_nodup.1 (Nat.le_antisymm l.toFinset_card_le h)

theorem leftOver_eq_zero_iff : leftOver sources sent returned = 0 ↔
    (returnedKeys sources returned).Nodup ∧ returnedKeys sources returned ⊆ sentKeys sources returned sent := by
  have hl : (returnedKeys sources returned).length = returned.length := List.length_map _
  rw [leftOver, Nat.sub_eq_zero_iff_le, ← hl]
  generalize returnedKeys sources returned = keys
  generalize sentKeys sources returned sent = others
  have hi : keys.toFinset ∩ others.toFinset ⊆ keys.toFinset := Finset.inter_subset_left
  constructor
  · intro h
    refine ⟨nodup_of_length_le_card (h.trans (Finset.card_le_card hi)), fun c hc ↦ ?_⟩
    have he := Finset.eq_of_subset_of_card_le hi (keys.toFinset_card_le.trans h)
    rw [← List.mem_toFinset, ← he] at hc
    exact List.mem_toFinset.1 (Finset.mem_inter.1 hc).2
  · rintro ⟨hn, hs⟩
    have he : keys.toFinset ∩ others.toFinset = keys.toFinset :=
      Finset.inter_eq_left.2 fun c hc ↦ List.mem_toFinset.2 (hs (List.mem_toFinset.1 hc))
    rw [he, List.toFinset_card_of_nodup hn]

variable {sent returned}

theorem find?_returned (h : (returnedKeys sources returned).Nodup) (c : Key.Class) (r : Row) :
    (returned.find? fun r ↦ returnedKey sources r = c) = some r ↔ r ∈ returned ∧ returnedKey sources r = c := by
  constructor
  · intro hr
    exact ⟨List.mem_of_find?_eq_some hr, by simpa using List.find?_some hr⟩
  · rintro ⟨hr, rfl⟩
    obtain ⟨r', hr'⟩ : ∃ r', (returned.find? fun r' ↦ returnedKey sources r' = returnedKey sources r) = some r' :=
      Option.isSome_iff_exists.1 (List.find?_isSome.2 ⟨r, hr, by simp⟩)
    have hk : returnedKey sources r' = returnedKey sources r := by simpa using List.find?_some hr'
    rw [hr', List.inj_on_of_nodup_map h (List.mem_of_find?_eq_some hr') hr hk]

theorem getElem?_walked (h : (returnedKeys sources returned).Nodup) (i : ℕ) :
    (walked sources sent returned)[i]? = sent[i]?.map fun row ↦
      if sentKey sources returned row ∈ (sent.take i).map (sentKey sources returned) then .skipped
      else taken sources row
        (returned.find? fun r ↦ returnedKey sources r = sentKey sources returned row) := by
  rw [walked, getElem?_outcomes _ _ (nodup_table sources returned)]
  simp only [find?_table sources h]
  rfl

end Upsert.Reconciliation
