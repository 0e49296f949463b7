import Upsert.Proofs.Reconciliation.Attribution

namespace Upsert

theorem Value.alike_iff {v w : Value} (h : ∀ j, w ≠ .json j) : v.Alike w ↔ v == w := by
  refine ⟨And.left, fun he ↦ ⟨he, ?_⟩⟩
  have hp := (Value.beq_iff v w).1 he
  cases w with
  | json j => exact absurd rfl (h j)
  | decimal d =>
    cases v with
    | decimal c => simpa [Value.plain, Value.fingerprint] using congrArg Decimal.text (Value.decimal.inj hp)
    | _ => cases hp
  | _ =>
    cases v <;> cases hp
    rfl

namespace KeySource

variable {s : KeySource} {returned : List Row} {stored row : Row}

/-- Every returned value that is not null shows how to read what was sent. -/
theorem readValue_eq (hm : stored ∈ returned) (hn : (s.returnedValue stored).isNull = false)
    (hk : Value.OneKind (s.returnedValues returned)) :
    s.readValue returned row = ((s.sentValue row).coerceLike (s.returnedValue stored)).canonical := by
  have hv : s.returnedValue stored ∈ s.returnedValues returned := List.mem_map_of_mem hm
  rw [readValue]
  cases hf : KeyShape.first? (s.returnedValues returned) with
  | none =>
    rw [KeyShape.first?_eq_none.1 hf _ hv] at hn
    cases hn
  | some w =>
    obtain ⟨hw, hwn⟩ := KeyShape.of_first?_eq_some hf
    rw [Key.shaped, Option.elim_some, Value.coerceLike_congr _ (hk w hw _ hv hwn hn)]

end KeySource

namespace Reconciliation

variable {s : KeySource} {returned : List Row} {stored row : Row}

theorem returnedKey_singleton_iff : returnedKey [s] stored = sentKey [s] returned row ↔
    (s.returnedValue stored).canonical.Alike (s.readValue returned row) := by
  rw [returnedKey_eq_sentKey_iff, List.forall_mem_singleton]

/-- A row is matched to what is returned for it exactly when its value is found under the returned one. -/
theorem returnedKey_eq_sentKey_iff_found (hm : stored ∈ returned)
    (hn : (s.returnedValue stored).isNull = false) (hj : ∀ j, s.returnedValue stored ≠ .json j)
    (hk : Value.OneKind (s.returnedValues returned)) :
    returnedKey [s] stored = sentKey [s] returned row ↔
      ((s.sentValue row).coerceLike (s.returnedValue stored)).canonical ==
        (s.returnedValue stored).canonical := by
  rw [returnedKey_singleton_iff, KeySource.readValue_eq hm hn hk]
  have hc : ∀ j, (s.returnedValue stored).canonical ≠ .json j := by
    intro j
    cases hv : s.returnedValue stored with
    | json i => exact absurd hv (hj i)
    | _ => exact nofun
  rw [← Value.alike_iff hc]
  exact ⟨fun h ↦ ⟨BEq.symm h.1, h.2.symm⟩, fun h ↦ ⟨BEq.symm h.1, h.2.symm⟩⟩

end Reconciliation

end Upsert
