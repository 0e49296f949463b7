import Upsert.Proofs.Key.Shape
import Upsert.Proofs.Key.Checker
import Upsert.Proofs.Reconciliation.Exactness

namespace Upsert

def Value.Alike (v w : Value) : Prop := v == w ∧ v.fingerprint = w.fingerprint

instance (v w : Value) : Decidable (v.Alike w) := inferInstanceAs (Decidable (_ ∧ _))

theorem Key.toClass_map_eq_iff {sources : List KeySource} {f g : KeySource → Value} :
    toClass (sources.map f) = toClass (sources.map g) ↔ ∀ s ∈ sources, (f s).Alike (g s) := by
  rw [toClass_eq_iff, same_iff]
  simp only [Value.Alike, Value.beq_iff, List.map_map, List.map_inj_left, Function.comp_apply, forall_and]

namespace Reconciliation

variable {t : Target} {b : Batch} {st : Statement} {sources : List KeySource} {returned : List Row}
  {row row' stored : Row}

theorem inputKey_eq_iff : KeyChecker.inputKey sources row = KeyChecker.inputKey sources row' ↔
    ∀ s ∈ sources, (s.sentValue row).canonical.Alike (s.sentValue row').canonical := by
  rw [KeyChecker.inputKey, KeyChecker.inputKey, Key.ofInput_eq, Key.ofInput_eq, Key.toClass_map_eq_iff]

theorem sentKey_eq_iff : sentKey sources returned row = sentKey sources returned row' ↔
    ∀ s ∈ sources, (s.readValue returned row).Alike (s.readValue returned row') := by
  rw [sentKey, sentKey, Key.ofSent_eq, Key.ofSent_eq]
  exact Key.toClass_map_eq_iff

theorem returnedKey_eq_sentKey_iff : returnedKey sources stored = sentKey sources returned row ↔
    ∀ s ∈ sources, (s.returnedValue stored).canonical.Alike (s.readValue returned row) := by
  rw [returnedKey, sentKey, Key.ofReturned, Key.ofSent_eq]
  exact Key.toClass_map_eq_iff

/-- The returned row could be taken by either. At some place where they differ, one of them is of another kind
than what was returned. -/
structure Confuses (sources : List KeySource) (returned : List Row) (stored row row' : Row) : Prop where
  left : ∀ s ∈ sources, (s.returnedValue stored).canonical.Alike (s.readValue returned row)
  right : ∀ s ∈ sources, (s.returnedValue stored).canonical.Alike (s.readValue returned row')
  foreign : ∃ s ∈ sources, ¬(s.sentValue row).canonical.Alike (s.sentValue row').canonical ∧
    (s.Foreign returned row ∨ s.Foreign returned row')

theorem confuses_iff (h : KeyChecker.inputKey sources row ≠ KeyChecker.inputKey sources row') :
    Confuses sources returned stored row row' ↔ returnedKey sources stored = sentKey sources returned row ∧
      returnedKey sources stored = sentKey sources returned row' := by
  rw [returnedKey_eq_sentKey_iff, returnedKey_eq_sentKey_iff]
  constructor
  · intro hc
    exact ⟨hc.left, hc.right⟩
  · rintro ⟨hl, hr⟩
    have hs : sentKey sources returned row = sentKey sources returned row' :=
      (returnedKey_eq_sentKey_iff.2 hl).symm.trans (returnedKey_eq_sentKey_iff.2 hr)
    obtain ⟨s, hm, ha⟩ : ∃ s ∈ sources,
        ¬(s.sentValue row).canonical.Alike (s.sentValue row').canonical := by
      rw [Ne, inputKey_eq_iff] at h
      push Not at h
      exact h
    refine ⟨hl, hr, s, hm, ha, ?_⟩
    by_contra hf
    push Not at hf
    refine ha ?_
    rw [← KeySource.readValue_of_not_foreign hf.1, ← KeySource.readValue_of_not_foreign hf.2]
    exact sentKey_eq_iff.1 hs s hm

theorem getElem?_walked_eq_skipped {sent : List Row} (h : (returnedKeys sources returned).Nodup)
    {i i' : Fin sent.length} (hlt : i < i')
    (hk : sentKey sources returned (sent.get i) = sentKey sources returned (sent.get i')) :
    (walked sources sent returned)[i'.val]? = some .skipped := by
  rw [getElem?_walked sources h, List.getElem?_eq_getElem i'.isLt, Option.map_some, ← List.get_eq_getElem,
    if_pos ((mem_keys_take i' _).2 ⟨i, hlt, hk⟩)]

theorem inputKey_ne_of_prepare (h : t.prepare b = .ok st) {i i' : Fin b.rows.length} (hne : i ≠ i') :
    KeyChecker.inputKey st.keySources (b.rows.get i) ≠ KeyChecker.inputKey st.keySources (b.rows.get i') := fun he ↦
  hne (eq_of_nodup_map (Target.nodup_inputKey_of_prepare h) he)

/-- A returned row belongs to one of the rows that were sent, unless the batch holds rows that are confused by what
is returned. That is no error: all of them but the first are skipped. -/
theorem attributes_iff (h : t.prepare b = .ok st) (returned : List Row) :
    ((∀ outcomes, reconcile st.keySources b.rows returned = .ok outcomes →
        ∀ stored ∈ returned, ∀ i i' : Fin b.rows.length,
          returnedKey st.keySources stored = sentKey st.keySources returned (b.rows.get i) →
          returnedKey st.keySources stored = sentKey st.keySources returned (b.rows.get i') → i = i') ↔
      ¬((returnedKeys st.keySources returned).Nodup ∧
        returnedKeys st.keySources returned ⊆ sentKeys st.keySources returned b.rows ∧
        ∃ stored ∈ returned, ∃ i i' : Fin b.rows.length,
          i < i' ∧ Confuses st.keySources returned stored (b.rows.get i) (b.rows.get i'))) ∧
    ∀ outcomes, reconcile st.keySources b.rows returned = .ok outcomes →
      ∀ stored ∈ returned, ∀ i i' : Fin b.rows.length, i < i' →
        Confuses st.keySources returned stored (b.rows.get i) (b.rows.get i') → outcomes[i'.val]? = some .skipped := by
  have hc (stored : Row) {i i' : Fin b.rows.length} (hne : i ≠ i') :
      Confuses st.keySources returned stored (b.rows.get i) (b.rows.get i') ↔
        returnedKey st.keySources stored = sentKey st.keySources returned (b.rows.get i) ∧
        returnedKey st.keySources stored = sentKey st.keySources returned (b.rows.get i') :=
    confuses_iff (inputKey_ne_of_prepare h hne)
  refine ⟨⟨fun hu ↦ ?_, fun hn outcomes ho stored hm i i' hk hk' ↦ ?_⟩, ?_⟩
  · rintro ⟨hd, hs, stored, hm, i, i', hlt, hf⟩
    have ho := (reconcile_eq_ok_iff ..).2 ⟨(leftOver_eq_zero_iff ..).2 ⟨hd, hs⟩, rfl⟩
    obtain ⟨hk, hk'⟩ := (hc stored hlt.ne).1 hf
    exact hlt.ne (hu _ ho stored hm i i' hk hk')
  · obtain ⟨hd, hs⟩ := (leftOver_eq_zero_iff ..).1 ((reconcile_eq_ok_iff ..).1 ho).1
    rcases lt_trichotomy i i' with hlt | rfl | hlt
    · exact absurd ⟨hd, hs, stored, hm, i, i', hlt, (hc stored hlt.ne).2 ⟨hk, hk'⟩⟩ hn
    · rfl
    · exact absurd ⟨hd, hs, stored, hm, i', i, hlt, (hc stored hlt.ne).2 ⟨hk', hk⟩⟩ hn
  · intro outcomes ho stored _ i i' hlt hf
    obtain ⟨hl, rfl⟩ := (reconcile_eq_ok_iff ..).1 ho
    obtain ⟨hk, hk'⟩ := (hc stored hlt.ne).1 hf
    exact getElem?_walked_eq_skipped ((leftOver_eq_zero_iff ..).1 hl).1 hlt (hk.symm.trans hk')

theorem not_attributes_text_number :
    let sent (v : Value) : Row := ⟨[⟨"k", v⟩]⟩
    let rows : List Row := [sent (.string "42"), sent (.int 42)]
    let stored : Row := ⟨[⟨"id", .int 1⟩, ⟨"k", .int 42⟩]⟩
    ¬∀ outcomes, reconcile [.column "k"] rows [stored] = .ok outcomes →
        ∀ row ∈ [stored], ∀ i i' : Fin rows.length,
          returnedKey [.column "k"] row = sentKey [.column "k"] [stored] (rows.get i) →
          returnedKey [.column "k"] row = sentKey [.column "k"] [stored] (rows.get i') → i = i' := by
  intro sent rows stored
  let t : Target := ⟨none, "items", ["id"]⟩
  let b : Batch := { rows, conflictTarget := some (.columns ["k"]), action := .nothing }
  let st : Statement := {
    insert := {
      table := t.tableName
      columns := ["k"]
      rows := [[.value (.string "42")], [.value (.int 42)]]
      onConflict := some ⟨some (.index [.column none "k"] none), .nothing⟩
      returning := [.column none "id", .column none "k"] }
    keySources := [.column "k"] }
  have h : t.prepare b = .ok st := rfl
  have hf : Confuses [.column "k"] [stored] stored (sent (.string "42")) (sent (.int 42)) :=
    ⟨by decide, by decide, .column "k", List.mem_singleton_self _, by decide, .inl ⟨.int 42, rfl, rfl, by decide⟩⟩
  refine mt (attributes_iff h [stored]).1.1 (not_not_intro ⟨by decide, by decide, ?_⟩)
  exact ⟨stored, List.mem_singleton_self _, 0, 1, by decide, hf⟩

end Reconciliation

end Upsert
