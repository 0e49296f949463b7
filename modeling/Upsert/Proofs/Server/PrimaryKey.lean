import Upsert.Proofs.Engine.Calls
import Upsert.Proofs.Reconciliation.Matching
import Upsert.Proofs.Server.Returning

namespace Upsert

open Sql (Meaning Term returnedFields returnedRow)
open Reconciliation (reconcile merged taken returnedKey sentKey returnedKeys sentKeys)

variable {sources : List KeySource} {t : Target} {st : Statement} {target : ConflictTarget} {action : Action}
  {row stored e : Row} {m : Meaning} {c : String}

theorem Reconciliation.reconcile_singleton {stored : Option Row}
    (hk : ∀ r ∈ stored, returnedKey sources r = sentKey sources stored.toList row) :
    reconcile sources [row] stored.toList = .ok [taken sources row stored] := by
  have hd : (returnedKeys sources stored.toList).Nodup := by
    cases stored with
    | none => exact List.nodup_nil
    | some r => exact List.nodup_singleton _
  have hs : returnedKeys sources stored.toList ⊆ sentKeys sources stored.toList [row] := by
    intro k hm
    obtain ⟨r, hr, rfl⟩ := List.mem_map.1 hm
    exact hk r (Option.mem_toList.1 hr) ▸ List.mem_singleton_self _
  refine (reconcile_eq_ok_iff ..).2 ⟨(leftOver_eq_zero_iff ..).2 ⟨hd, hs⟩, (List.ext_getElem? fun i ↦ ?_).symm⟩
  rw [getElem?_walked sources hd]
  cases i with
  | succ i => rfl
  | zero =>
    cases stored with
    | none => rfl
    | some r =>
      have hr : ([r].find? fun r' ↦ returnedKey sources r' = sentKey sources [r] row) = some r :=
        List.find?_cons_of_pos (decide_eq_true (hk r rfl))
      show some (taken sources row ([r].find? fun r' ↦ returnedKey sources r' = sentKey sources [r] row)) = _
      rw [hr]
      rfl

namespace Reconciliation

variable (h : stored.columns.Nodup) (row)

include h

theorem get_merged_of_synthetic (hc : c ∈ KeySource.synthetic sources) :
    (merged sources row stored).get c = row.get c := by
  rw [merged, Row.foldl_erase h, Row.overlay]
  rcases row.get?_setAll_cases (stored.without (KeySource.synthetic sources)).fields c with
    ⟨-, hg⟩ | ⟨x, hx, rfl, -⟩
  · rw [Row.get, hg, Row.get]
  · exact absurd hc (of_decide_eq_true (List.mem_filter.1 hx).2)

theorem get_merged_of_mem (hc : c ∉ KeySource.synthetic sources) (hm : c ∈ stored.columns) :
    (merged sources row stored).get c = stored.get c := by
  rw [merged, Row.foldl_erase h, Row.overlay]
  rcases row.get?_setAll_cases (stored.without (KeySource.synthetic sources)).fields c with
    ⟨hn, -⟩ | ⟨x, hx, rfl, hv⟩
  · obtain ⟨x, hx, rfl⟩ := List.mem_map.1 hm
    exact absurd rfl (hn x (List.mem_filter.2 ⟨hx, decide_eq_true hc⟩))
  · rw [Row.get, hv, Option.getD_some, Row.get_of_mem h (List.mem_filter.1 hx).1]

end Reconciliation

theorem nodup_returnedRow (m : Meaning) (es : List Term) (e : Row) : (returnedRow m es e).columns.Nodup :=
  Row.built_iff_nodup.1 (Row.built_ofFields _)

theorem primaryKey_returned (m : Meaning) (e : Row) (hc : c ∈ t.primaryKey) :
    (⟨c, e.get c⟩ : Field) ∈ (returning t false sources).flatMap (returnedFields m e) := by
  have hd : c ∈ distinct (t.primaryKey ++ sources.filterMap KeySource.plain?) := by
    rw [distinct_eq_eraseDups, List.mem_eraseDups]
    exact List.mem_append_left _ hc
  exact List.mem_flatMap.2 ⟨.column none c, List.mem_append_left _ (List.mem_map_of_mem hd), List.mem_singleton_self _⟩

def givenValue (sources : List KeySource) (row e : Row) (c : String) : Value :=
  if c ∈ KeySource.synthetic sources then row.get c else e.get c

theorem get_merged_primaryKey (m : Meaning) (row e : Row) (hc : c ∈ t.primaryKey) :
    (merged sources row (returnedRow m (returning t false sources) e)).get c = givenValue sources row e c := by
  have hd := nodup_returnedRow m (returning t false sources) e
  rw [givenValue]
  split
  next hs => exact Reconciliation.get_merged_of_synthetic row hd hs
  next hn =>
    rw [Reconciliation.get_merged_of_mem row hd hn (Row.mem_columns_setAll _ (primaryKey_returned m e hc)),
      get_returnedRow_of_mem (primaryKey_returned m e hc) hn]

theorem map_givenValue_eq_iff {cs : List String} : cs.map (givenValue sources row e) = cs.map e.get ↔
    ∀ c ∈ cs, c ∈ KeySource.synthetic sources → row.get c = e.get c := by
  rw [List.map_inj_left]
  refine forall₂_congr fun c _ ↦ ?_
  rw [givenValue, ite_eq_right_iff]

section

variable {σ : Type} {answer : Query → StateM σ Answer} {s s' : σ} {stored : Option Row}

theorem upsertKey_of_execute {result : Except UpsertError (List Outcome)} {x y : σ × List Query}
    (h : (Upserter.execute ⟨.logging answer, t⟩ (Call.upsertKey row target action).batch).run x = (result, y)) :
    (Upserter.upsertKey ⟨.logging answer, t⟩ row target action).run x =
      (result.map fun outcomes ↦ (outcomes.head?.bind Outcome.row?).map fun r ↦ t.primaryKey.map r.get, y) := by
  have h : StateT.run (m := Id) (Upserter.execute ⟨.logging answer, t⟩
    { rows := [row], conflictTarget := some target, action }) x = pure (result, y) := h
  rw [Upserter.upsertKey, Upserter.single]
  simp only [StateT.run_bind, h, pure_bind]
  cases result <;> rfl

theorem upsertKey_of_answered (hp : t.prepare (Call.upsertKey row target action).batch = .ok st)
    (ha : (answer (st.sql, st.params)).run s = (.ok (stored.toList.map (returnedRow m st.insert.returning)), s'))
    (hk : ∀ e ∈ stored, returnedKey st.keySources (returnedRow m st.insert.returning e) =
      sentKey st.keySources [returnedRow m st.insert.returning e] row) (log : List Query) :
    (Upserter.upsertKey ⟨.logging answer, t⟩ row target action).run (s, log) =
      (.ok (stored.map fun e ↦ t.primaryKey.map (givenValue st.keySources row e)), s',
        log ++ [(st.sql, st.params)]) := by
  have hret : st.insert.returning = returning t false st.keySources := by
    obtain ⟨layout, -, hs, -⟩ := Target.prepare_eq_ok_iff.1 hp
    exact returning_of_statement hs
  have hr : reconcile st.keySources [row] (stored.toList.map (returnedRow m st.insert.returning)) =
      .ok [taken st.keySources row (stored.map (returnedRow m st.insert.returning))] := by
    rw [← Option.toList_map]
    refine Reconciliation.reconcile_singleton fun r hm ↦ ?_
    obtain ⟨e, he, rfl⟩ := Option.map_eq_some_iff.1 hm
    rw [he]
    exact hk e he
  have hgiven (e : Row) : t.primaryKey.map (merged st.keySources row (returnedRow m st.insert.returning e)).get =
      t.primaryKey.map (givenValue st.keySources row e) :=
    List.map_congr_left fun c hc ↦ hret ▸ get_merged_primaryKey m row e hc
  have he := execute_of_answered hp ha log
  change _ = (reconcile st.keySources [row] _, _) at he
  rw [upsertKey_of_execute (hr ▸ he)]
  simp only [← hgiven]
  cases stored <;> rfl

/-- The call gives nothing exactly if no row comes back, and otherwise the primary key of the row that is stored, if and
only if no column of it goes by a label under which the row that was sent has another value. -/
theorem primaryKey_given_iff (hp : t.prepare (Call.upsertKey row target action).batch = .ok st)
    (ha : (answer (st.sql, st.params)).run s = (.ok (stored.toList.map (returnedRow m st.insert.returning)), s'))
    (hk : ∀ e ∈ stored, returnedKey st.keySources (returnedRow m st.insert.returning e) =
      sentKey st.keySources [returnedRow m st.insert.returning e] row) (log : List Query) :
    ∃ key, (Upserter.upsertKey ⟨.logging answer, t⟩ row target action).run (s, log) =
        (.ok key, s', log ++ [(st.sql, st.params)]) ∧
      (key = none ↔ stored = none) ∧
      ∀ e ∈ stored, (key = some (t.primaryKey.map e.get) ↔
        ∀ c ∈ t.primaryKey, c ∈ KeySource.synthetic st.keySources → row.get c = e.get c) := by
  refine ⟨_, upsertKey_of_answered hp ha hk log, Option.map_eq_none_iff, ?_⟩
  rintro e rfl
  rw [Option.map_some, Option.some.injEq, map_givenValue_eq_iff]

end

theorem primaryKey_not_given_label :
    let m : Meaning := { compare := fun _ _ _ ↦ none, extract := fun v k ↦ v.extractKey k }
    let t : Target := ⟨none, "items", ["__conflict_key_0"]⟩
    let title : Value := .json (.object [("en", .string "a")])
    let row : Row := ⟨[⟨"title", title⟩]⟩
    let e : Row := ⟨[⟨"__conflict_key_0", .int 7⟩, ⟨"title", title⟩]⟩
    let target : ConflictTarget := .keyed [⟨"title", "en"⟩]
    ∃ st key, t.prepare (Call.upsertKey row target .nothing).batch = .ok st ∧
      (Upserter.upsertKey ⟨.logging fun _ ↦ pure (.ok [returnedRow m st.insert.returning e]), t⟩
        row target .nothing).run ((), []) = (.ok key, (), [(st.sql, st.params)]) ∧
      key ≠ none ∧ key ≠ some (t.primaryKey.map e.get) := by
  intro m t title row e target
  obtain ⟨st, hp⟩ : ∃ st, t.prepare (Call.upsertKey row target .nothing).batch = .ok st := ⟨_, rfl⟩
  have hk : returnedKey st.keySources (returnedRow m st.insert.returning e) =
      sentKey st.keySources [returnedRow m st.insert.returning e] row := by
    cases hp
    rfl
  have hs : "__conflict_key_0" ∈ KeySource.synthetic st.keySources := by
    cases hp
    exact List.mem_singleton_self _
  let answer : Query → StateM Unit Answer := fun _ ↦ pure (.ok [returnedRow m st.insert.returning e])
  have ha : (answer (st.sql, st.params)).run () =
    (.ok ((some e).toList.map (returnedRow m st.insert.returning)), ()) := rfl
  obtain ⟨key, hrun, hnone, hkey⟩ := primaryKey_given_iff hp ha (fun e' he' ↦ Option.some.inj he' ▸ hk) []
  refine ⟨st, key, hp, hrun, mt hnone.1 nofun, fun h ↦ ?_⟩
  cases (hkey e rfl).1 h "__conflict_key_0" (List.mem_singleton_self _) hs

end Upsert
