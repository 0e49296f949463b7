import Upsert.Proofs.Reconciliation.Prepared
import Upsert.Proofs.Server.Returning
import Upsert.Proofs.Server.Runs

namespace Upsert

open Sql (Meaning returnedRow)
open Reconciliation (reconcile merged taken returnedKey returnedKeys OneKindEach)

variable {names cs : List String} {t : Target} {rows touched returned : List Row} {ret : Row → Row} {m : Meaning}
  {fullRow : Bool}

theorem get_merged {row e : Row} {c : String} (h : e.get c == row.get c) :
    (merged (names.map .column) row (returnedRow m (returning t fullRow (names.map .column)) e)).get c ==
      row.get c := by
  rw [merged, synthetic_columns, List.foldl_nil, Row.overlay]
  rcases row.get?_setAll_cases (returnedRow m (returning t fullRow (names.map .column)) e).fields c with
    ⟨-, hg⟩ | ⟨x, hx, rfl, hv⟩
  · rw [Row.get, hg]
    exact BEq.refl _
  · rw [Row.get, hv, Option.getD_some]
    rcases Row.mem_fields_setAll hx with hx | hx
    · cases hx
    · rwa [value_of_mem_returned hx (synthetic_columns ▸ List.not_mem_nil)]

def Row.AgreesOn (cs : List String) (r row : Row) : Prop := ∀ c ∈ cs, r.get c == row.get c

/-- The key columns of rows hold values that a server can compare, of one kind in each column. -/
structure Comparable (names : List String) (rows : List Row) : Prop where
  notNull : ∀ row ∈ rows, ∀ c ∈ names, (row.get c).isNull = false
  noDocument : ∀ row ∈ rows, ∀ c ∈ names, (row.get c).document? = none
  oneKind : ∀ c ∈ names, Value.OneKind (rows.map fun row ↦ row.get c)

theorem canonical_eq_of_beq {v w : Value} (h : v == w) (hw : w.document? = none) : v.canonical = w.canonical := by
  rcases Value.eq_cases h with rfl | ⟨c, d, rfl, rfl, hn⟩ | ⟨i, j, rfl, rfl, -⟩
  · rfl
  · rw [Value.canonical, Value.canonical, hn]
  · cases hw

theorem sameKind_of_beq {v w : Value} (h : v == w) : v.SameKind w := by
  rcases Value.eq_cases h with rfl | ⟨c, d, rfl, rfl, -⟩ | ⟨i, j, rfl, rfl, -⟩ <;> rfl

section

variable (hc : Comparable names rows)

include hc

theorem isSome_of_comparable {row : Row} (hr : row ∈ rows) : (targetKey names row).isSome :=
  isSome_targetKey.2 (hc.notNull row hr)

theorem beq_of_targetKey {e row : Row} (hr : row ∈ rows) (hk : targetKey names e = targetKey names row) :
    ∀ c ∈ names, e.get c == row.get c := (targetKey_eq_iff (isSome_of_comparable hc hr)).1 hk

/-- A stored row of the key of one that was sent has the key under which that one was checked. -/
theorem returnedKey_of_targetKey {e ret row : Row} (hr : row ∈ rows) (hk : targetKey names e = targetKey names row)
    (hret : ∀ c ∈ names, ret.get c = e.get c) :
    returnedKey (names.map .column) ret = KeyChecker.inputKey (names.map .column) row := by
  refine Reconciliation.returnedKey_eq_inputKey fun x hx ↦ ?_
  obtain ⟨c, hm, rfl⟩ := List.mem_map.1 hx
  rw [KeySource.returnedValue, KeySource.sentValue, hret c hm]
  exact canonical_eq_of_beq (beq_of_targetKey hc hr hk c hm) (hc.noDocument row hr c hm)

theorem distinctKeys_of_inputKeys (hn : (rows.map (KeyChecker.inputKey (names.map .column))).Nodup) :
    DistinctKeys names rows := by
  refine ⟨fun row ↦ isSome_of_comparable hc, List.Nodup.map_on ?_ (.of_map _ hn)⟩
  intro row hr row' hr' he
  have hk : KeyChecker.inputKey (names.map .column) row = KeyChecker.inputKey (names.map .column) row' :=
    (returnedKey_of_targetKey hc hr rfl fun _ _ ↦ rfl).symm.trans (returnedKey_of_targetKey hc hr' he fun _ _ ↦ rfl)
  exact List.inj_on_of_nodup_map hn hr hr' hk

end

/-- A row was stored, and came back with the values that were sent in these columns. -/
def AppliedWith (cs : List String) (row : Row) (o : Outcome) : Prop := ∃ r, o = .applied r ∧ r.AgreesOn cs row

open Classical in
noncomputable def outcomeOf (names : List String) (ret : Row → Row) (touched : List Row) (row : Row) : Outcome :=
  taken (names.map .column) row ((touched.find? fun e ↦ targetKey names e = targetKey names row).map ret)

theorem outcomeOf_of_notMem {row : Row}
    (h : ∀ e ∈ touched, targetKey names e ≠ targetKey names row) : outcomeOf names ret touched row = .skipped := by
  rw [outcomeOf, List.find?_eq_none.2 (by simpa using h)]
  rfl

theorem forall₂_outcomes {R : Row → Outcome → Prop} {f : Row → Outcome} (h : ∀ row ∈ rows, R row (f row)) :
    List.Forall₂ R rows (rows.map f) := List.forall₂_map_right_iff.2 (List.forall₂_same.2 h)

open Classical in
theorem find?_targetKey {row : Row} (h : ∃ e ∈ touched, targetKey names e = targetKey names row) :
    ∃ e ∈ touched, targetKey names e = targetKey names row ∧
      (touched.find? fun e ↦ targetKey names e = targetKey names row) = some e := by
  obtain ⟨e, he, hk⟩ := h
  obtain ⟨e', he'⟩ := Option.isSome_iff_exists.1 (List.find?_isSome (p := fun e ↦
    decide (targetKey names e = targetKey names row)) |>.2 ⟨e, he, by simpa using hk⟩)
  exact ⟨e', List.mem_of_find?_eq_some he', by simpa using List.find?_some he', he'⟩

theorem appliedWith_outcomeOf {row : Row}
    (h : ∃ e ∈ touched, targetKey names e = targetKey names row)
    (ha : ∀ e ∈ touched, targetKey names e = targetKey names row → e.AgreesOn cs row) :
    AppliedWith cs row
      (outcomeOf names (returnedRow m (returning t fullRow (names.map .column))) touched row) := by
  obtain ⟨e, he, hk, hf⟩ := find?_targetKey h
  refine ⟨merged (names.map .column) row (returnedRow m (returning t fullRow (names.map .column)) e), ?_, fun c hc ↦
    get_merged (ha e he hk c hc)⟩
  rw [outcomeOf, hf]
  rfl

section

open Classical

/-- A server returns these stored rows, each of which has the key of one that was sent. -/
structure Answers (names : List String) (rows touched : List Row) (ret : Row → Row) (returned : List Row) : Prop where
  key_eq : ∀ e ∈ touched, ∀ c ∈ names, (ret e).get c = e.get c
  sent : ∀ e ∈ touched, ∃ row ∈ rows, targetKey names e = targetKey names row
  nodup : (touched.map (targetKey names)).Nodup
  perm : returned.Perm (touched.map ret)

namespace Answers

variable (h : Answers names rows touched ret returned)

include h

theorem exists_of_mem {r : Row} (hr : r ∈ returned) : ∃ e ∈ touched, r = ret e := by
  obtain ⟨e, he, hre⟩ := List.mem_map.1 (h.perm.mem_iff.1 hr)
  exact ⟨e, he, hre.symm⟩

variable (hc : Comparable names rows)

include hc

theorem oneKindEach : OneKindEach (names.map .column) rows returned := by
  intro x hx
  obtain ⟨c, hcm, rfl⟩ := List.mem_map.1 hx
  -- Every value has the kind of one that was sent.
  have hs : ∀ v ∈ (KeySource.column c).sentValues rows ++ (KeySource.column c).returnedValues returned,
      ∃ w ∈ rows.map fun row ↦ row.get c, w.isNull = false ∧ v.SameKind w := by
    intro v hv
    rcases List.mem_append.1 hv with hv | hv
    · obtain ⟨row, hr, rfl⟩ := List.mem_map.1 hv
      exact ⟨_, List.mem_map_of_mem hr, hc.notNull row hr c hcm, rfl⟩
    · obtain ⟨r, hr, rfl⟩ := List.mem_map.1 hv
      obtain ⟨e, he, rfl⟩ := h.exists_of_mem hr
      obtain ⟨row, hrow, hkey⟩ := h.sent e he
      refine ⟨row.get c, List.mem_map_of_mem hrow, hc.notNull row hrow c hcm, ?_⟩
      rw [KeySource.returnedValue, h.key_eq e he c hcm]
      exact sameKind_of_beq (beq_of_targetKey hc hrow hkey c hcm)
  intro v hv w hw _ _
  obtain ⟨v', hv', hvn, hvk⟩ := hs v hv
  obtain ⟨w', hw', hwn, hwk⟩ := hs w hw
  exact hvk.trans ((hc.oneKind c hcm v' hv' w' hw' hvn hwn).trans hwk.symm)

theorem returnedKey_eq {e row : Row} (he : e ∈ touched) (hr : row ∈ rows)
    (hk : targetKey names e = targetKey names row) :
    returnedKey (names.map .column) (ret e) = KeyChecker.inputKey (names.map .column) row :=
  returnedKey_of_targetKey hc hr hk (h.key_eq e he)

variable (hn : (rows.map (KeyChecker.inputKey (names.map .column))).Nodup)

include hn

theorem targetKey_eq {e row : Row} (he : e ∈ touched) (hr : row ∈ rows)
    (hk : returnedKey (names.map .column) (ret e) = KeyChecker.inputKey (names.map .column) row) :
    targetKey names e = targetKey names row := by
  obtain ⟨row', hr', hk'⟩ := h.sent e he
  rw [h.returnedKey_eq hc he hr' hk'] at hk
  rw [hk', List.inj_on_of_nodup_map hn hr' hr hk]

theorem nodup_returnedKeys : (returnedKeys (names.map .column) returned).Nodup := by
  refine (h.perm.map _).nodup_iff.2 ?_
  rw [List.map_map]
  refine List.Nodup.map_on (fun e he e' he' hke ↦ ?_) (.of_map _ h.nodup)
  obtain ⟨row', hr', hk'⟩ := h.sent e' he'
  have hk : targetKey names e = targetKey names row' :=
    h.targetKey_eq hc hn he hr' (hke.trans (h.returnedKey_eq hc he' hr' hk'))
  exact List.inj_on_of_nodup_map h.nodup he he' (hk.trans hk'.symm)

theorem find?_returned {row : Row} (hr : row ∈ rows) :
    (returned.find? fun r ↦ returnedKey (names.map .column) r = KeyChecker.inputKey (names.map .column) row) =
      (touched.find? fun e ↦ targetKey names e = targetKey names row).map ret := by
  cases hf : touched.find? fun e ↦ targetKey names e = targetKey names row with
  | some e =>
    have he := List.mem_of_find?_eq_some hf
    have hke : targetKey names e = targetKey names row := by simpa using List.find?_some hf
    refine (Reconciliation.find?_returned _ (h.nodup_returnedKeys hc hn) _ _).2 ⟨?_, h.returnedKey_eq hc he hr hke⟩
    exact h.perm.mem_iff.2 (List.mem_map_of_mem he)
  | none =>
    refine List.find?_eq_none.2 fun r hm hk ↦ ?_
    obtain ⟨e, he, rfl⟩ := h.exists_of_mem hm
    exact List.find?_eq_none.1 hf e he (by simpa using h.targetKey_eq hc hn he hr (by simpa using hk))

theorem reconcile_eq : reconcile (names.map .column) rows returned = .ok (rows.map (outcomeOf names ret touched)) := by
  have hsent : ∀ r ∈ returned, ∃ row ∈ rows,
      returnedKey (names.map .column) r = KeyChecker.inputKey (names.map .column) row := by
    intro r hr
    obtain ⟨e, he, rfl⟩ := h.exists_of_mem hr
    obtain ⟨row, hrow, hk⟩ := h.sent e he
    exact ⟨row, hrow, h.returnedKey_eq hc he hrow hk⟩
  rw [Reconciliation.reconcile_eq_ok_of_keys (h.oneKindEach hc) hn (h.nodup_returnedKeys hc hn) hsent]
  congr 1
  refine List.map_congr_left fun row hr ↦ ?_
  rw [h.find?_returned hc hn hr, outcomeOf]

end Answers

end

end Upsert
