import Mathlib.Order.Fin.Basic
import Mathlib.Order.WellFounded
import Upsert.Proofs.Reconciliation.Matching

namespace Upsert.Reconciliation

variable (sources : List KeySource) (sent returned : List Row)

/-- The row sent at `i` has the key of the row returned at `j`, which is laid over it. -/
def Takes (outcomes : List Outcome) (i : Fin sent.length) (j : Fin returned.length) : Prop :=
  sentKey sources returned (sent.get i) = returnedKey sources (returned.get j) ∧
    outcomes[i.val]? = some (.applied (merged sources (sent.get i) (returned.get j)))

/-- One outcome for each row that was sent, in the same order, and one row that was sent for each that was
returned. -/
structure Exact (outcomes : List Outcome) : Prop where
  length_eq : outcomes.length = sent.length
  applied_iff (i : Fin sent.length) : (∃ row, outcomes[i.val]? = some (.applied row)) ↔
    sentKey sources returned (sent.get i) ∈ returnedKeys sources returned ∧
      ∀ i' < i, sentKey sources returned (sent.get i') ≠ sentKey sources returned (sent.get i)
  skipped_of_not_applied (i : Fin sent.length) :
    (¬∃ row, outcomes[i.val]? = some (.applied row)) → outcomes[i.val]? = some .skipped
  takes_one (i : Fin sent.length) : (∃ row, outcomes[i.val]? = some (.applied row)) →
    ∃! j, Takes sources sent returned outcomes i j
  taken_once (j : Fin returned.length) : ∃! i, Takes sources sent returned outcomes i j

variable {sources sent returned}

theorem exists_first {n : ℕ} {P : Fin n → Prop} (h : ∃ i, P i) : ∃ i, P i ∧ ∀ i' < i, ¬P i' :=
  ⟨wellFounded_lt.min {i | P i} h, wellFounded_lt.min_mem {i | P i} h,
    fun _ hlt hp ↦ wellFounded_lt.not_lt_min {i | P i} hp hlt⟩

theorem mem_keys_take (i : Fin sent.length) (c : Key.Class) :
    c ∈ (sent.take i).map (sentKey sources returned) ↔ ∃ i' < i, sentKey sources returned (sent.get i') = c := by
  simp only [List.mem_map, List.mem_take_iff_getElem]
  constructor
  · rintro ⟨row, ⟨n, hn, rfl⟩, hc⟩
    exact ⟨⟨n, by omega⟩, Fin.lt_def.2 (by simp; omega), hc⟩
  · rintro ⟨i', hi, hc⟩
    exact ⟨sent.get i', ⟨i', by have := Fin.lt_def.1 hi; omega, rfl⟩, hc⟩

theorem getElem?_walked_eq_applied (h : (returnedKeys sources returned).Nodup) (i : Fin sent.length) (row : Row) :
    (walked sources sent returned)[i.val]? = some (.applied row) ↔
      (∀ i' < i, sentKey sources returned (sent.get i') ≠ sentKey sources returned (sent.get i)) ∧
      ∃ r ∈ returned, returnedKey sources r = sentKey sources returned (sent.get i) ∧
        row = merged sources (sent.get i) r := by
  rw [getElem?_walked sources h, List.getElem?_eq_getElem i.isLt, Option.map_some, Option.some_inj,
    ← List.get_eq_getElem]
  by_cases hf : ∃ i' < i, sentKey sources returned (sent.get i') = sentKey sources returned (sent.get i)
  · rw [if_pos ((mem_keys_take i _).2 hf)]
    obtain ⟨i', hi, hk⟩ := hf
    exact ⟨fun he ↦ (by cases he), fun ha ↦ absurd hk (ha.1 i' hi)⟩
  · rw [if_neg (mt (mem_keys_take i _).1 hf), taken_eq_applied_iff]
    simp only [find?_returned sources h, and_assoc]
    push Not at hf
    exact (and_iff_right hf).symm

theorem eq_of_nodup_map {α β : Type} {f : α → β} {l : List α} (h : (l.map f).Nodup) {i i' : Fin l.length}
    (he : f (l.get i) = f (l.get i')) : i = i' := by
  have hl : l.get i = l.get i' := List.inj_on_of_nodup_map h (l.get_mem i) (l.get_mem i') he
  exact (List.Nodup.of_map _ h).get_inj_iff.1 hl

theorem exists_sentKey_eq (hs : returnedKeys sources returned ⊆ sentKeys sources returned sent)
    (j : Fin returned.length) :
    ∃ i : Fin sent.length, sentKey sources returned (sent.get i) = returnedKey sources (returned.get j) := by
  obtain ⟨row, hm, hk⟩ := List.mem_map.1 (hs (List.mem_map_of_mem (returned.get_mem j)))
  obtain ⟨i, rfl⟩ := List.get_of_mem hm
  exact ⟨i, hk⟩

theorem getElem?_eq_skipped {outcomes : List Outcome} {i : ℕ} (hi : i < outcomes.length)
    (h : ¬∃ row, outcomes[i]? = some (.applied row)) : outcomes[i]? = some .skipped := by
  rw [List.getElem?_eq_getElem hi] at h ⊢
  cases ho : outcomes[i] with
  | applied row => exact absurd ⟨row, congrArg some ho⟩ h
  | skipped => rfl

theorem exact_walked (h : leftOver sources sent returned = 0) :
    Exact sources sent returned (walked sources sent returned) := by
  obtain ⟨hn, hs⟩ := (leftOver_eq_zero_iff sources sent returned).1 h
  have ha (i : Fin sent.length) (row : Row) := getElem?_walked_eq_applied hn i row
  have hl : (walked sources sent returned).length = sent.length := length_outcomes ..
  refine ⟨hl, fun i ↦ ?_, fun i hi ↦ getElem?_eq_skipped (by omega) hi, fun i hi ↦ ?_, fun j ↦ ?_⟩
  · constructor
    · rintro ⟨row, hr⟩
      obtain ⟨hf, r, hr, hk, -⟩ := (ha i row).1 hr
      exact ⟨hk ▸ List.mem_map_of_mem hr, hf⟩
    · rintro ⟨hm, hf⟩
      obtain ⟨r, hr, hk⟩ := List.mem_map.1 hm
      exact ⟨_, (ha i _).2 ⟨hf, r, hr, hk, rfl⟩⟩
  · obtain ⟨row, hr⟩ := hi
    obtain ⟨-, r, hm, hk, rfl⟩ := (ha i row).1 hr
    obtain ⟨j, rfl⟩ := List.get_of_mem hm
    exact ⟨j, ⟨hk.symm, hr⟩, fun j' hj' ↦ eq_of_nodup_map hn (hj'.1.symm.trans hk.symm)⟩
  · -- Of the rows that were sent under the key, the first takes it, and none behind that is applied.
    obtain ⟨i, hi, hf⟩ := exists_first (exists_sentKey_eq hs j)
    refine ⟨i, ⟨hi, (ha i _).2 ⟨fun i' hlt he ↦ hf i' hlt (he.trans hi), returned.get j,
      returned.get_mem j, hi.symm, rfl⟩⟩, ?_⟩
    rintro i' ⟨hk', ho'⟩
    have hf' := ((ha i' _).1 ho').1
    rcases lt_trichotomy i i' with hlt | rfl | hlt
    · exact absurd (hi.trans hk'.symm) (hf' i hlt)
    · rfl
    · exact absurd hk' (hf i' hlt)

/-- Rows are left over, and their number is the error; or every returned row goes to the one row that was sent
first under its key. Where no column stands twice in a returned row, the labels that only reconciliation asks for
are left out of what is laid over. -/
theorem reconcile_exact (sources : List KeySource) (sent returned : List Row) :
    (if leftOver sources sent returned = 0 then
      ∃ outcomes, reconcile sources sent returned = .ok outcomes ∧ Exact sources sent returned outcomes
    else reconcile sources sent returned = .error (.unreconciledRows (leftOver sources sent returned))) ∧
    ∀ row stored : Row, stored.columns.Nodup →
      merged sources row stored = row.overlay (stored.without (KeySource.synthetic sources)) := by
  refine ⟨?_, fun row stored h ↦ by rw [merged, Row.foldl_erase h]⟩
  split
  · rename_i h
    exact ⟨walked sources sent returned, (reconcile_eq_ok_iff ..).2 ⟨h, rfl⟩, exact_walked h⟩
  · rename_i h
    rw [reconcile_eq, if_neg h]

end Upsert.Reconciliation
