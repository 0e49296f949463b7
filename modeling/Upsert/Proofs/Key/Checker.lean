import Upsert.Engine.Upserter
import Upsert.Proofs.Except
import Upsert.Proofs.Key.Table
import Upsert.Proofs.Plan.Statement

namespace Upsert.KeyChecker

variable (sources : List KeySource)

def inputKey (row : Row) : Key.Class := (Key.ofInput sources row).toClass

theorem check_eq_ok_iff (c c' : KeyChecker) (index : ℕ) (key : Key) :
    c.check index key = .ok c' ↔ key.toClass ∉ c.seen.classes ∧ c' = ⟨c.seen ++ [(key, index)]⟩ := by
  rw [check]
  cases h : c.seen.find? key with
  | some first =>
    have hm : key.toClass ∈ c.seen.classes := (KeyTable.isSome_find? key c.seen).1 (by rw [h]; rfl)
    simp [hm]
  | none =>
    have hm : key.toClass ∉ c.seen.classes := (KeyTable.find?_eq_none key c.seen).1 h
    simp [hm, KeyTable.insert_of_notMem key index c.seen hm, eq_comm]

theorem checkFrom_eq_ok_iff (c : KeyChecker) (h : c.seen.classes.Nodup) (index : ℕ) (rows : List Row) :
    checkFrom sources c index rows = .ok () ↔ (c.seen.classes ++ rows.map (inputKey sources)).Nodup := by
  induction rows generalizing c index with
  | nil => simpa [checkFrom] using h
  | cons row rows ih =>
    rw [checkFrom]
    cases hc : c.check index (Key.ofInput sources row) with
    | error e =>
      have hm : inputKey sources row ∈ c.seen.classes := by
        by_contra hm
        have ho := (check_eq_ok_iff c _ index _).2 ⟨hm, rfl⟩
        rw [hc] at ho
        cases ho
      have hn : ¬(c.seen.classes ++ (row :: rows).map (inputKey sources)).Nodup := fun hn ↦
        List.disjoint_of_nodup_append hn hm List.mem_cons_self
      exact ⟨fun he ↦ (by cases he), fun he ↦ absurd he hn⟩
    | ok c' =>
      obtain ⟨hm, rfl⟩ := (check_eq_ok_iff c c' index _).1 hc
      have hs : KeyTable.classes (c.seen ++ [(Key.ofInput sources row, index)]) =
          c.seen.classes ++ [inputKey sources row] := by simp [KeyTable.classes, inputKey]
      have ih := ih ⟨c.seen ++ [(Key.ofInput sources row, index)]⟩
        (by rw [hs]; exact List.nodup_append_comm.1 (List.nodup_cons.2 ⟨hm, h⟩)) (index + 1)
      rw [hs, List.append_assoc] at ih
      exact ih

theorem checkRows_eq_ok_iff (rows : List Row) :
    checkRows sources rows = .ok () ↔ (rows.map (inputKey sources)).Nodup := by
  rw [checkRows, checkFrom_eq_ok_iff sources {} List.nodup_nil]
  rfl

end Upsert.KeyChecker

namespace Upsert.Target

variable {t : Target} {b : Batch} {st : Statement}

theorem prepare_eq_ok_iff : t.prepare b = .ok st ↔ ∃ layout, Layout.ofRows b.rows = .ok layout ∧
    t.statement layout b = .ok st ∧ KeyChecker.checkRows st.keySources b.rows = .ok () := by
  simp only [prepare, Except.bind_eq_ok_iff, Except.mapError_eq_ok_iff]
  refine exists_congr fun layout ↦ and_congr_right fun _ ↦ ⟨?_, ?_⟩
  · rintro ⟨_, hs, ⟨⟩, hc, ⟨⟩⟩
    exact ⟨hs, hc⟩
  · rintro ⟨hs, hc⟩
    exact ⟨st, hs, (), hc, rfl⟩

theorem rows_ne_nil_of_prepare (h : t.prepare b = .ok st) : b.rows ≠ [] := by
  intro hr
  obtain ⟨layout, hl, hs, -⟩ := prepare_eq_ok_iff.1 h
  rw [hr] at hl
  cases hl
  exact (statement_eq_ok_iff.1 hs).1 rfl

theorem nodup_inputKey_of_prepare (h : t.prepare b = .ok st) :
    (b.rows.map (KeyChecker.inputKey st.keySources)).Nodup := by
  obtain ⟨layout, -, -, hc⟩ := prepare_eq_ok_iff.1 h
  exact (KeyChecker.checkRows_eq_ok_iff st.keySources b.rows).1 hc

end Upsert.Target
