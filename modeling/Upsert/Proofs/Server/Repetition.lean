import Upsert.Proofs.Server.Answers

namespace Upsert

open Sql (Server Slot Storage returnedRow)
open Reconciliation (reconcile)

variable {names cs : List String} {layout : Layout} {s : Server} {t : Target} {b : Batch} {st : Statement}
  {rows : List Row}

theorem nodup_of_reduceOption {α : Type} {l : List (Option α)} (h : ∀ o ∈ l, o.isSome) (hn : l.reduceOption.Nodup) :
    l.Nodup := by
  induction l with
  | nil => exact List.nodup_nil
  | cons o l ih =>
    obtain ⟨ho, hl⟩ := List.forall_mem_cons.1 h
    obtain ⟨a, rfl⟩ := Option.isSome_iff_exists.1 ho
    rw [List.reduceOption_cons_of_some] at hn
    obtain ⟨ha, hn⟩ := List.nodup_cons.1 hn
    exact List.nodup_cons.2 ⟨mt List.reduceOption_mem_iff.2 ha, ih hl hn⟩

theorem mem_of_mem_touchedRows {xs : List Slot} {e : Row} (he : e ∈ touchedRows xs) : e ∈ xs.map Slot.row := by
  obtain ⟨x, hx, rfl⟩ := List.mem_map.1 he
  exact List.mem_map_of_mem (List.mem_of_mem_filter hx)

namespace Updated

variable {xs : List Slot} (h : Updated names cs rows xs)

include h

theorem exists_row {e : Row} (he : e ∈ touchedRows xs) :
    ∃ row ∈ rows, targetKey names e = targetKey names row ∧ ∀ c ∈ cs, e.get c = row.get c := by
  obtain ⟨x, hx, rfl⟩ := List.mem_map.1 he
  obtain ⟨hx, ht⟩ := List.mem_filter.1 hx
  obtain ⟨row, hr, hk, hv⟩ := h.values x hx ht
  exact ⟨row, hr, hk, fun c hc ↦ by rw [Row.get, hv c hc, Option.getD_some]⟩

theorem exists_touched {row : Row} (hr : row ∈ rows) :
    ∃ e ∈ touchedRows xs, targetKey names e = targetKey names row := by
  obtain ⟨x, hx, hk⟩ := List.mem_map.1 (h.stored row hr)
  have ht : x.touched = true := (h.touched_iff x hx).2 (hk ▸ List.mem_map_of_mem hr)
  exact ⟨x.row, List.mem_map_of_mem (List.mem_filter.2 ⟨hx, ht⟩), hk⟩

theorem agreesOn (hc : Comparable names rows) (hd : DistinctKeys names rows) {e row : Row} (he : e ∈ touchedRows xs)
    (hr : row ∈ rows) (hk : targetKey names e = targetKey names row) : e.AgreesOn (names ++ cs) row := by
  intro c hm
  rcases List.mem_append.1 hm with hm | hm
  · exact beq_of_targetKey hc hr hk c hm
  · obtain ⟨row', hr', hk', hv⟩ := h.exists_row he
    obtain rfl := List.inj_on_of_nodup_map hd.nodup hr' hr (hk'.symm.trans hk)
    rw [hv c hm]
    exact BEq.refl _

theorem nodup_touched (hd : DistinctKeys names rows) : ((touchedRows xs).map (targetKey names)).Nodup := by
  refine nodup_of_reduceOption (fun o ho ↦ ?_) ?_
  · obtain ⟨e, he, rfl⟩ := List.mem_map.1 ho
    obtain ⟨row, hr, hk, -⟩ := h.exists_row he
    exact hk ▸ hd.isSome row hr
  · rw [touchedRows, List.map_map]
    exact h.unique.sublist ((List.filter_sublist.map _).filterMap id)

end Updated

section

variable {u : Upserter (StateM Storage)} (hprepare : u.target.prepare b = .ok st)
  (hnote : ∀ e, u.executor.note e = pure ()) (hquery : u.executor.query st.sql st.params = s.execute st.insert)
  (hc : Comparable names b.rows)

include hprepare hnote hquery

theorem run_execute {table table' : Storage} {returned : List Row} {outcomes : List Outcome}
    (he : s.execute st.insert table = (.ok returned, table'))
    (hr : reconcile st.keySources b.rows returned = .ok outcomes) :
    (u.execute b).run table = (.ok outcomes, table') := by
  have hne : ¬b.rows.isEmpty = true := by simpa using Target.rows_ne_nil_of_prepare hprepare
  have he : StateT.run (m := Id) (s.execute st.insert) table = pure (.ok returned, table') := he
  rw [Upserter.execute, if_neg hne, hprepare]
  simp only [hnote, hquery, pure_bind, StateT.run_bind, he, hr]
  rfl

include hc

theorem run_touched {reaction : Sql.Reaction} (hplan : ColumnPlan u.target layout b names reaction st)
    {touched returned : List Row} (hk : ∀ e ∈ touched, ∃ row ∈ b.rows, targetKey names e = targetKey names row)
    (hd : (touched.map (targetKey names)).Nodup)
    (hp : returned.Perm (touched.map (returnedRow s.meaning st.insert.returning))) {table table' : Storage}
    (he : s.execute st.insert table = (.ok returned, table')) :
    (u.execute b).run table =
      (.ok (b.rows.map (outcomeOf names (returnedRow s.meaning st.insert.returning) touched)), table') := by
  have hn := Target.nodup_inputKey_of_prepare hprepare
  rw [hplan.sources_eq] at hn
  have ha : Answers names b.rows touched (returnedRow s.meaning st.insert.returning) returned := by
    refine ⟨?_, hk, hd, hp⟩
    rw [hplan.returning_eq]
    exact fun e _ c ↦ get_returnedRow u.target b.returnFullRow s.meaning e
  refine run_execute hprepare hnote hquery he ?_
  rw [hplan.sources_eq]
  exact ha.reconcile_eq hc hn

theorem update_twice (hplan : ColumnPlan u.target layout b names (.update (cs.map .proposed) none) st)
    (hcs : cs ⊆ layout) {table : Storage} (hu : UniqueKeys names table.rows) :
    ∃ xs n n', Updated names cs b.rows xs ∧
      (u.execute b).run table = (.ok (b.rows.map (outcomeOf names (returnedRow s.meaning st.insert.returning)
        (touchedRows xs))), ⟨xs.map Slot.row, n⟩) ∧
      (u.execute b).run ⟨xs.map Slot.row, n⟩ = (.ok (b.rows.map (outcomeOf names
        (returnedRow s.meaning st.insert.returning) (touchedRows xs))), ⟨xs.map Slot.row, n'⟩) := by
  have hd := distinctKeys_of_inputKeys hc (hplan.sources_eq ▸ Target.nodup_inputKey_of_prepare hprepare)
  obtain ⟨xs, n, h, hfirst⟩ := execute_update (s := s) (t := u.target) hd hplan.subset hcs table hu
  obtain ⟨n', hsecond⟩ := execute_update_again (s := s) (t := u.target) hd hplan.subset hcs h n
  rw [← hplan.insert_eq] at hfirst hsecond
  have hk : ∀ e ∈ touchedRows xs, ∃ row ∈ b.rows, targetKey names e = targetKey names row := by
    intro e he
    obtain ⟨row, hr, hk, -⟩ := h.exists_row he
    exact ⟨row, hr, hk⟩
  exact ⟨xs, n, n', h,
    run_touched hprepare hnote hquery hc hplan hk (h.nodup_touched hd) (s.order_perm _ _) hfirst,
    run_touched hprepare hnote hquery hc hplan hk (h.nodup_touched hd) (s.order_perm _ _) hsecond⟩

theorem nothing_twice (hplan : ColumnPlan u.target layout b names .nothing st) {table : Storage}
    (hu : UniqueKeys names table.rows) :
    ∃ added n n', Added names layout b.rows table.rows added ∧
      (u.execute b).run table = (.ok (b.rows.map (outcomeOf names (returnedRow s.meaning st.insert.returning) added)),
        ⟨table.rows ++ added, n⟩) ∧
      (u.execute b).run ⟨table.rows ++ added, n⟩ = (.ok (b.rows.map fun _ ↦ .skipped), ⟨table.rows ++ added, n'⟩) := by
  have hd := distinctKeys_of_inputKeys hc (hplan.sources_eq ▸ Target.nodup_inputKey_of_prepare hprepare)
  obtain ⟨added, n, h, hfirst⟩ := execute_nothing (s := s) (t := u.target) hd hplan.subset table hu
  obtain ⟨n', hsecond⟩ := execute_nothing_again (s := s) (t := u.target) hd hplan.subset (h.unique hplan.subset hu)
    (h.mem_keys hplan.subset) n
  rw [← hplan.insert_eq] at hfirst hsecond
  have hk : ∀ e ∈ added, ∃ row ∈ b.rows, targetKey names e = targetKey names row := by
    intro e he
    obtain ⟨row, hr, -, hp⟩ := h.proposed e he
    exact ⟨row, hr, targetKey_of_proposes hplan.subset hp⟩
  have hnone : ∀ e ∈ ([] : List Row), ∃ row ∈ b.rows, targetKey names e = targetKey names row :=
    fun e he ↦ absurd he List.not_mem_nil
  exact ⟨added, n, n', h,
    run_touched hprepare hnote hquery hc hplan hk h.nodup (s.order_perm _ _) hfirst,
    run_touched hprepare hnote hquery hc hplan hnone List.nodup_nil (.refl []) hsecond⟩

end

/-- Running a batch twice is safe. With an update, every row is applied both times, with the same values, those that
were sent. With nothing to do for rows that conflict, these are skipped and the others applied, and the second time
all of them are skipped. The second run leaves the table as it is. -/
theorem execute_twice (u : Upserter (StateM Storage)) (s : Server) (table : Storage)
    (hprepare : u.target.prepare b = .ok st) (hnote : ∀ e, u.executor.note e = pure ())
    (hquery : u.executor.query st.sql st.params = s.execute st.insert)
    (htarget : b.conflictTarget = some (.columns names)) (hnames : names ≠ []) (hpredicate : b.indexPredicate = none)
    (hc : Comparable names b.rows) (hu : UniqueKeys names table.rows) :
    (∀ set, b.action = .update set none → (∀ list, set ≠ .assignments list) → ∃ outcomes after after',
      (u.execute b).run table = (.ok outcomes, after) ∧ (u.execute b).run after = (.ok outcomes, after') ∧
      after'.rows = after.rows ∧
      List.Forall₂ (AppliedWith (names ++ set.setColumns names st.insert.columns)) b.rows outcomes ∧
      ∀ row ∈ b.rows, ∃ e ∈ after.rows, e.AgreesOn (names ++ set.setColumns names st.insert.columns) row) ∧
    (b.action = .nothing → ∃ outcomes after after', (u.execute b).run table = (.ok outcomes, after) ∧
      (u.execute b).run after = (.ok (b.rows.map fun _ ↦ .skipped), after') ∧ after'.rows = after.rows ∧
      table.rows <+: after.rows ∧
      List.Forall₂ (fun row o ↦ (targetKey names row ∈ table.rows.map (targetKey names) → o = .skipped) ∧
        (targetKey names row ∉ table.rows.map (targetKey names) → AppliedWith st.insert.columns row o))
        b.rows outcomes) := by
  obtain ⟨layout, -, hstatement, -⟩ := Target.prepare_eq_ok_iff.1 hprepare
  obtain ⟨reaction, hreaction, hplan⟩ := exists_columnPlan hstatement htarget hnames hpredicate
  have hcolumns : st.insert.columns = layout := by rw [hplan.insert_eq]; rfl
  have hd := distinctKeys_of_inputKeys hc (hplan.sources_eq ▸ Target.nodup_inputKey_of_prepare hprepare)
  constructor
  · intro set haction hset
    rw [haction] at hreaction
    obtain ⟨-, settings, condition, hs, hcondition, rfl⟩ := Action.lower_update_eq_ok_iff.1 hreaction
    obtain ⟨cs, hcs, hsub, rfl⟩ := settings_of_columns hnames hplan.subset hset hs
    cases hcondition
    obtain ⟨xs, n, n', h, hfirst, hsecond⟩ := update_twice hprepare hnote hquery hc hplan hcs hu
    have hagrees : ∀ e ∈ touchedRows xs, ∀ row ∈ b.rows, targetKey names e = targetKey names row →
        e.AgreesOn (names ++ set.setColumns names layout) row := by
      intro e he row hr hk c hm
      have hm : c ∈ names ++ cs := List.mem_append.2 ((List.mem_append.1 hm).imp_right fun hm ↦ hsub hm)
      exact h.agreesOn hc hd he hr hk c hm
    rw [hplan.returning_eq] at hfirst hsecond
    rw [hcolumns]
    refine ⟨_, _, _, hfirst, hsecond, rfl, forall₂_outcomes fun row hr ↦ ?_, fun row hr ↦ ?_⟩
    · exact appliedWith_outcomeOf (h.exists_touched hr) fun e he hk ↦ hagrees e he row hr hk
    · obtain ⟨e, he, hk⟩ := h.exists_touched hr
      exact ⟨e, mem_of_mem_touchedRows he, hagrees e he row hr hk⟩
  · intro haction
    rw [haction] at hreaction
    cases hreaction
    obtain ⟨added, n, n', h, hfirst, hsecond⟩ := nothing_twice hprepare hnote hquery hc hplan hu
    rw [hplan.returning_eq] at hfirst
    rw [hcolumns]
    refine ⟨_, _, _, hfirst, hsecond, rfl, List.prefix_append _ _,
      forall₂_outcomes fun row hr ↦ ⟨fun hk ↦ ?_, fun hk ↦ ?_⟩⟩
    · refine outcomeOf_of_notMem fun e he hke ↦ ?_
      obtain ⟨row', hr', hn, hp⟩ := h.proposed e he
      rw [← targetKey_of_proposes hplan.subset hp, hke] at hn
      exact hn hk
    · obtain ⟨e, he, hp⟩ := h.complete row hr hk
      refine appliedWith_outcomeOf ⟨e, he, targetKey_of_proposes hplan.subset hp⟩ fun e' he' hk' c hm ↦ ?_
      obtain rfl := List.inj_on_of_nodup_map h.nodup he' he (hk'.trans (targetKey_of_proposes hplan.subset hp).symm)
      rw [hp.get_eq hm]
      exact BEq.refl _

theorem execute_twice_title :
    let row (code title : String) : Row := ⟨[⟨"code", .string code⟩, ⟨"title", .string title⟩]⟩
    let b : Batch := {
      rows := [row "a" "c", row "b" "d"]
      conflictTarget := some (.columns ["code"])
      action := .update .inserted none }
    let insert : Sql.Insert := {
      table := ⟨none, "items"⟩
      columns := ["code", "title"]
      rows := [[.value (.string "a"), .value (.string "c")], [.value (.string "b"), .value (.string "d")]]
      onConflict := some ⟨some (.index [.column none "code"] none), .update [.proposed "title"] none⟩
      returning := [.column none "id", .column none "code"] }
    let s : Server := {
      meaning := ⟨fun _ _ _ ↦ none, fun v k ↦ v.extractKey k⟩
      defaults := fun n ↦ ⟨[⟨"id", .int (.ofNat n)⟩]⟩
      order := fun _ ↦ List.reverse
      order_perm := fun _ ↦ List.reverse_perm
      violates := fun _ _ _ ↦ false
      refusal := .client .reported }
    let u : Upserter (StateM Storage) := ⟨⟨fun _ _ ↦ s.execute insert, fun _ ↦ pure ()⟩, ⟨none, "items", ["id"]⟩⟩
    let table : Storage := ⟨[⟨[⟨"id", .int 1⟩, ⟨"code", .string "a"⟩, ⟨"title", .string "e"⟩]⟩], 2⟩
    ∃ outcomes after after', (u.execute b).run table = (.ok outcomes, after) ∧
      (u.execute b).run after = (.ok outcomes, after') ∧ after'.rows = after.rows ∧
      List.Forall₂ (AppliedWith ["code", "title"]) b.rows outcomes := by
  intro row b insert s u table
  have hprepare : u.target.prepare b = .ok ⟨insert, [.column "code"]⟩ := rfl
  have hc : Comparable ["code"] b.rows := ⟨by decide, by decide, by decide⟩
  have hu : UniqueKeys ["code"] table.rows := List.nodup_singleton _
  obtain ⟨outcomes, after, after', hfirst, hsecond, hrows, happlied, -⟩ := (execute_twice u s table hprepare
    (fun _ ↦ rfl) rfl rfl (List.cons_ne_nil _ _) rfl hc hu).1 .inserted rfl fun _ ↦ UpdateSet.noConfusion
  exact ⟨outcomes, after, after', hfirst, hsecond, hrows, happlied⟩

end Upsert
