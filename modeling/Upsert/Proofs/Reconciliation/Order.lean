import Upsert.Proofs.Key.Shape
import Upsert.Proofs.Reconciliation.Matching

namespace Upsert

theorem KeySource.readValue_perm {s : KeySource} {returned returned' : List Row} (hp : returned.Perm returned')
    (hk : Value.OneKind (s.returnedValues returned)) (row : Row) :
    s.readValue returned row = s.readValue returned' row := by
  have hv : (s.returnedValues returned).Perm (s.returnedValues returned') := hp.map _
  rw [readValue, readValue]
  cases h : KeyShape.first? (s.returnedValues returned) with
  | none =>
    have hn : ∀ w ∈ s.returnedValues returned', w.isNull = true := fun w hw ↦
      KeyShape.first?_eq_none.1 h w (hv.mem_iff.2 hw)
    rw [KeyShape.first?_eq_none.2 hn]
  | some w =>
    obtain ⟨hw, hwn⟩ := KeyShape.of_first?_eq_some h
    cases h' : KeyShape.first? (s.returnedValues returned') with
    | none =>
      have hn := KeyShape.first?_eq_none.1 h' w (hv.mem_iff.1 hw)
      rw [hwn] at hn
      cases hn
    | some w' =>
      -- Two samples may differ, but not in their kind.
      obtain ⟨hw', hwn'⟩ := KeyShape.of_first?_eq_some h'
      have hc := (s.sentValue row).coerceLike_congr (hk w hw w' (hv.mem_iff.2 hw') hwn hwn')
      simp only [Key.shaped, Option.elim_some, hc]

namespace Reconciliation

section

variable {sources : List KeySource} {sent returned returned' : List Row} (hp : returned.Perm returned')

include hp

theorem returnedKeys_perm : (returnedKeys sources returned).Perm (returnedKeys sources returned') := hp.map _

theorem find?_returned_perm (h : (returnedKeys sources returned).Nodup) (c : Key.Class) :
    (returned.find? fun r ↦ returnedKey sources r = c) =
      returned'.find? fun r ↦ returnedKey sources r = c := by
  have h' := (returnedKeys_perm hp).nodup_iff.1 h
  apply Option.ext
  intro r
  rw [find?_returned sources h, find?_returned sources h', hp.mem_iff]

variable (hk : ∀ s ∈ sources, Value.OneKind (s.returnedValues returned))

include hk

theorem sentKey_perm : sentKey sources returned = sentKey sources returned' := by
  funext row
  rw [sentKey, sentKey, Key.ofSent_eq, Key.ofSent_eq]
  exact congrArg Key.toClass (List.map_congr_left fun s hs ↦ KeySource.readValue_perm hp (hk s hs) row)

theorem leftOver_perm : leftOver sources sent returned = leftOver sources sent returned' := by
  rw [leftOver, leftOver, sentKeys, sentKeys, sentKey_perm hp hk, hp.length_eq,
    List.toFinset_eq_of_perm _ _ (returnedKeys_perm hp)]

theorem walked_perm (h : (returnedKeys sources returned).Nodup) :
    walked sources sent returned = walked sources sent returned' := by
  apply List.ext_getElem?
  intro i
  rw [getElem?_walked sources h, getElem?_walked sources ((returnedKeys_perm hp).nodup_iff.1 h),
    sentKey_perm hp hk]
  simp only [find?_returned_perm hp h]

end

/-- Rows that are returned in another order are matched the same, or are left over in the same number. -/
theorem reconcile_perm (sources : List KeySource) (sent returned returned' : List Row)
    (hp : returned.Perm returned') (hk : ∀ s ∈ sources, Value.OneKind (s.returnedValues returned)) :
    (∃ outcomes, reconcile sources sent returned = .ok outcomes ∧
      reconcile sources sent returned' = .ok outcomes) ∨
    ∃ count, reconcile sources sent returned = .error (.unreconciledRows count) ∧
      reconcile sources sent returned' = .error (.unreconciledRows count) := by
  rw [reconcile_eq, reconcile_eq, ← leftOver_perm hp hk]
  by_cases h : leftOver sources sent returned = 0
  · have hw : walked sources sent returned = walked sources sent returned' :=
      walked_perm hp hk ((leftOver_eq_zero_iff ..).1 h).1
    rw [if_pos h, if_pos h, ← hw]
    exact .inl ⟨_, rfl, rfl⟩
  · rw [if_neg h, if_neg h]
    exact .inr ⟨_, rfl, rfl⟩

theorem reconcile_swap_null :
    let seven : Row := ⟨[⟨"k", .int 7⟩]⟩
    let null : Row := ⟨[⟨"k", .null⟩]⟩
    let sent : List Row := [⟨[⟨"k", .string "7"⟩]⟩, null]
    (∃ outcomes, reconcile [.column "k"] sent [null, seven] = .ok outcomes ∧
      reconcile [.column "k"] sent [seven, null] = .ok outcomes) ∨
    ∃ count, reconcile [.column "k"] sent [null, seven] = .error (.unreconciledRows count) ∧
      reconcile [.column "k"] sent [seven, null] = .error (.unreconciledRows count) :=
  reconcile_perm _ _ _ _ (.swap _ _ _) (by decide)

end Reconciliation

end Upsert
