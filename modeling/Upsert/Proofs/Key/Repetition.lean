import Mathlib.Data.List.Induction
import Mathlib.Order.Bounds.Basic
import Upsert.Proofs.Except
import Upsert.Proofs.Key.Checker

namespace Upsert.KeyChecker

abbrev Request := ℕ × Key

def step (c : KeyChecker) (r : Request) : KeyChecker :=
  match c.check r.1 r.2 with
  | .ok c' => c'
  | .error _ => c

def after (calls : List Request) : KeyChecker := calls.foldl step {}

theorem after_concat (calls : List Request) (r : Request) : after (calls ++ [r]) = (after calls).step r := by
  rw [after, List.foldl_append]
  rfl

/-- Some call was this one, and did not fail. -/
def Passed (calls : List Request) (r : Request) : Prop :=
  ∃ before behind c, calls = before ++ r :: behind ∧ (after before).check r.1 r.2 = .ok c

theorem passed_concat {calls : List Request} {r s : Request} :
    Passed (calls ++ [s]) r ↔ Passed calls r ∨ r = s ∧ ∃ c, (after calls).check s.1 s.2 = .ok c := by
  constructor
  · intro ⟨before, behind, c, hc, hp⟩
    cases behind using List.reverseRecOn with
    | nil =>
      obtain ⟨rfl, hs⟩ := List.append_inj' hc rfl
      cases hs
      exact .inr ⟨rfl, c, hp⟩
    | append_singleton behind x =>
      rw [← List.cons_append, ← List.append_assoc] at hc
      obtain ⟨rfl, -⟩ := List.append_inj' hc rfl
      exact .inl ⟨before, behind, c, rfl, hp⟩
  · intro h
    obtain ⟨before, behind, c, rfl, hp⟩ | ⟨rfl, c, hp⟩ := h
    · exact ⟨before, behind ++ [s], c, by rw [List.append_assoc, List.cons_append], hp⟩
    · exact ⟨calls, [], c, rfl, hp⟩

theorem check_eq_error_iff {c : KeyChecker} {index : ℕ} {key : Key} {e : UpsertError} :
    c.check index key = .error e ↔ ∃ first, c.seen.find? key = some first ∧ e = .duplicateConflictKey first index := by
  rw [check]
  cases h : c.seen.find? key with
  | none => simp
  | some first => simp [eq_comm]

theorem seen_after (calls : List Request) : (after calls).seen.classes.Nodup ∧
    ∀ index key, (key, index) ∈ (after calls).seen ↔ Passed calls (index, key) := by
  induction calls using List.reverseRecOn with
  | nil =>
    refine ⟨List.nodup_nil, ?_⟩
    intro index key
    refine ⟨fun h ↦ (by cases h), ?_⟩
    intro ⟨before, behind, c, hc, _⟩
    cases before <;> cases hc
  | append_singleton calls s ih =>
    obtain ⟨hn, hm⟩ := ih
    rw [after_concat, step]
    cases hc : (after calls).check s.1 s.2 with
    | error e =>
      refine ⟨hn, ?_⟩
      intro index key
      simp [passed_concat, hm, hc]
    | ok c =>
      obtain ⟨hs, rfl⟩ := (check_eq_ok_iff _ _ _ _).1 hc
      constructor
      · rw [KeyTable.classes, List.map_append]
        exact List.nodup_append_comm.1 (List.nodup_cons.2 ⟨hs, hn⟩)
      · intro index key
        simp [passed_concat, hm, hc, Prod.ext_iff, and_comm]

section

variable (sources : List KeySource)

def SameKey (rows : List Row) (i j : ℕ) : Prop :=
  ∃ r s, rows[i]? = some r ∧ rows[j]? = some s ∧ (Key.ofInput sources r).same (Key.ofInput sources s)

/-- The least place whose key stands at an earlier one too, and the least place of that key. -/
structure FirstRepetition (rows : List Row) (first duplicate : ℕ) : Prop where
  repeats : IsLeast {j | ∃ i < j, SameKey sources rows i j} duplicate
  earliest : IsLeast {i | SameKey sources rows i duplicate} first

def remembered (rows : List Row) : KeyTable ℕ := (rows.map (Key.ofInput sources)).zipIdx

variable {sources} {rows before : List Row} {row : Row} {i j : ℕ}

theorem sameKey_iff : SameKey sources rows i j ↔
    ∃ c, (rows.map (inputKey sources))[i]? = some c ∧ (rows.map (inputKey sources))[j]? = some c := by
  simp only [List.getElem?_map, Option.map_eq_some_iff]
  constructor
  · intro ⟨r, s, hr, hs, h⟩
    exact ⟨inputKey sources s, ⟨r, hr, Key.toClass_eq_iff.2 h⟩, s, hs, rfl⟩
  · intro ⟨c, ⟨r, hr, hrc⟩, s, hs, hsc⟩
    exact ⟨r, s, hr, hs, Key.toClass_eq_iff.1 (hrc.trans hsc.symm)⟩

theorem not_sameKey_of_nodup (h : (rows.map (inputKey sources)).Nodup) (hi : i < j) : ¬SameKey sources rows i j := by
  intro hs
  obtain ⟨c, hic, hjc⟩ := sameKey_iff.1 hs
  obtain ⟨hj, -⟩ := List.getElem?_eq_some_iff.1 hjc
  exact Nat.ne_of_lt hi ((List.getElem?_inj (hi.trans hj) h).1 (hic.trans hjc.symm))

theorem sameKey_append (hi : i < before.length) (hj : j < before.length) :
    SameKey sources (before ++ rows) i j ↔ SameKey sources before i j := by
  rw [SameKey, SameKey, List.getElem?_append_left hi, List.getElem?_append_left hj]

theorem FirstRepetition.unique {first first' duplicate duplicate' : ℕ} (h : FirstRepetition sources rows first duplicate)
    (h' : FirstRepetition sources rows first' duplicate') : first = first' ∧ duplicate = duplicate' := by
  obtain rfl := h.repeats.unique h'.repeats
  exact ⟨h.earliest.unique h'.earliest, rfl⟩

theorem classes_remembered (rows : List Row) : (remembered sources rows).classes = rows.map (inputKey sources) := by
  have hf : (remembered sources rows).map Prod.fst = rows.map (Key.ofInput sources) := List.zipIdx_map_fst _ _
  have hc : (remembered sources rows).classes = ((remembered sources rows).map Prod.fst).map Key.toClass :=
    (List.map_map ..).symm
  rw [hc, hf, List.map_map]
  rfl

theorem find?_remembered (h : (before.map (inputKey sources)).Nodup) {key : Key} {first : ℕ} :
    (remembered sources before).find? key = some first ↔
      ∃ r, before[first]? = some r ∧ inputKey sources r = key.toClass := by
  rw [KeyTable.find?_eq_some_iff ((classes_remembered before).symm ▸ h)]
  simp only [remembered, List.mk_mem_zipIdx_iff_getElem?, List.getElem?_map, Option.map_eq_some_iff]
  constructor
  · intro ⟨_, ⟨r, hr, rfl⟩, hk⟩
    exact ⟨r, hr, hk⟩
  · intro ⟨r, hr, hk⟩
    exact ⟨_, ⟨r, hr, rfl⟩, hk⟩

theorem remembered_concat (before : List Row) (row : Row) :
    remembered sources before ++ [(Key.ofInput sources row, before.length)] = remembered sources (before ++ [row]) := by
  simp [remembered, List.zipIdx_append]

theorem firstRepetition_of_find? (h : (before.map (inputKey sources)).Nodup) {first : ℕ}
    (hf : (remembered sources before).find? (Key.ofInput sources row) = some first) :
    FirstRepetition sources (before ++ row :: rows) first before.length := by
  obtain ⟨r, hr, hk⟩ := (find?_remembered h).1 hf
  obtain ⟨hlt, -⟩ := List.getElem?_eq_some_iff.1 hr
  have hs : SameKey sources (before ++ row :: rows) first before.length := by
    refine ⟨r, row, ?_, ?_, Key.toClass_eq_iff.1 hk⟩
    · rw [List.getElem?_append_left hlt, hr]
    · rw [List.getElem?_append_right (Nat.le_refl _), Nat.sub_self, List.getElem?_cons_zero]
  refine ⟨⟨⟨first, hlt, hs⟩, ?_⟩, hs, ?_⟩
  · intro j ⟨i, hi, hij⟩
    by_contra hj
    have hj := Nat.lt_of_not_le hj
    exact not_sameKey_of_nodup h hi ((sameKey_append (hi.trans hj) hj).1 hij)
  · intro i hi
    by_contra hlt'
    have hlt' := Nat.lt_of_not_le hlt'
    obtain ⟨c, hic, hc⟩ := sameKey_iff.1 hi
    obtain ⟨c', hfc, hc'⟩ := sameKey_iff.1 hs
    have hij : SameKey sources (before ++ row :: rows) i first :=
      sameKey_iff.2 ⟨c, hic, hfc.trans (hc'.symm.trans hc)⟩
    exact not_sameKey_of_nodup h hlt' ((sameKey_append (hlt'.trans hlt) hlt).1 hij)

theorem checkFrom_eq_error_iff (h : (before.map (inputKey sources)).Nodup) {e : UpsertError} :
    checkFrom sources ⟨remembered sources before⟩ before.length rows = .error e ↔ ∃ first duplicate,
      FirstRepetition sources (before ++ rows) first duplicate ∧ e = .duplicateConflictKey first duplicate := by
  induction rows generalizing before with
  | nil =>
    constructor
    · intro he
      cases he
    · intro h'
      obtain ⟨first, duplicate, hr, -⟩ := h'
      obtain ⟨i, hi, hs⟩ := hr.repeats.1
      rw [List.append_nil] at hs
      exact absurd hs (not_sameKey_of_nodup h hi)
  | cons row rows ih =>
    rw [checkFrom]
    cases hc : check ⟨remembered sources before⟩ before.length (Key.ofInput sources row) with
    | error e' =>
      obtain ⟨first, hf, rfl⟩ := check_eq_error_iff.1 hc
      have hr : FirstRepetition sources (before ++ row :: rows) first before.length := firstRepetition_of_find? h hf
      constructor
      · intro he
        cases he
        exact ⟨first, before.length, hr, rfl⟩
      · intro h'
        obtain ⟨first', duplicate, hr', he⟩ := h'
        obtain ⟨rfl, rfl⟩ := hr.unique hr'
        rw [he]
        rfl
    | ok c =>
      obtain ⟨hn, rfl⟩ := (check_eq_ok_iff _ _ _ _).1 hc
      rw [classes_remembered] at hn
      have hn' : ((before ++ [row]).map (inputKey sources)).Nodup := by
        rw [List.map_append]
        exact List.nodup_append_comm.1 (List.nodup_cons.2 ⟨hn, h⟩)
      have ih := ih hn'
      rw [List.length_append, List.length_singleton, List.append_assoc, List.singleton_append] at ih
      rw [Except.ok_bind, remembered_concat]
      exact ih

end

/-- A call fails exactly when an earlier one with its key passed, and reports both; then the checker is as it was. A
list of rows passes exactly when no two keys are the same, and else its first repetition is reported. -/
theorem check_finds_first (calls : List Request) (index : ℕ) (key : Key) (sources : List KeySource) (rows : List Row) :
    (∀ e, (after calls).check index key = .error e ↔ ∃ first k,
      Passed calls (first, k) ∧ k.same key ∧ e = .duplicateConflictKey first index) ∧
    ((∃ e, (after calls).check index key = .error e) → after (calls ++ [(index, key)]) = after calls) ∧
    (checkRows sources rows = .ok () ↔
      rows.Pairwise fun r s ↦ ¬(Key.ofInput sources r).same (Key.ofInput sources s)) ∧
    ∀ e, checkRows sources rows = .error e ↔ ∃ first duplicate,
      FirstRepetition sources rows first duplicate ∧ e = .duplicateConflictKey first duplicate := by
  refine ⟨?_, ?_, ?_, ?_⟩
  · intro e
    obtain ⟨hn, hm⟩ := seen_after calls
    simp only [check_eq_error_iff, KeyTable.find?_eq_some_iff hn, hm, Key.toClass_eq_iff]
    constructor
    · intro ⟨first, ⟨k, hp, hk⟩, he⟩
      exact ⟨first, k, hp, hk, he⟩
    · intro ⟨first, k, hp, hk, he⟩
      exact ⟨first, ⟨k, hp, hk⟩, he⟩
  · intro ⟨e, he⟩
    rw [after_concat, step, he]
  · rw [checkRows_eq_ok_iff, List.Nodup, List.pairwise_map]
    simp only [inputKey, ne_eq, Key.toClass_eq_iff]
  · intro e
    have h : (([] : List Row).map (inputKey sources)).Nodup := List.nodup_nil
    exact checkFrom_eq_error_iff h

end Upsert.KeyChecker
