import Upsert.Proofs.Server.Keys

namespace Upsert

open Sql (Insert Reaction Server Slot Storage returnedRow)
open Sql.Server (keys settled fresh after)

section

variable {names cs : List String} {layout : Layout} {s : Server} {t : Target} {b : Batch} {rows ps : List Row}
  {xs : List Slot}

def touchedRows (xs : List Slot) : List Row := (xs.filter Slot.touched).map Slot.row

theorem execute_eq {i : Insert} (st : Storage)
    (h : s.offerAll i (st.rows.map (⟨·, false⟩)) (s.proposals i st.proposals) = some xs) :
    s.execute i st = (.ok (s.order st.proposals ((touchedRows xs).map (returnedRow s.meaning i.returning))),
      ⟨xs.map Slot.row, st.proposals + i.rows.length⟩) := by
  rw [Server.execute, h, touchedRows, List.map_map]
  rfl

structure DistinctKeys (names : List String) (rows : List Row) : Prop where
  isSome : ∀ row ∈ rows, (targetKey names row).isSome
  nodup : (rows.map (targetKey names)).Nodup

namespace DistinctKeys

variable (hd : DistinctKeys names rows) (hs : names ⊆ layout) (hp : List.Forall₂ (Proposes layout) ps rows)

include hd hs hp

theorem isSome_of_mem {p : Row} (hm : p ∈ ps) : (targetKey names p).isSome := by
  obtain ⟨row, hr, h⟩ := Except.exists_of_mem_forall₂ hp.flip hm
  rw [targetKey_of_proposes hs h]
  exact hd.isSome row hr

theorem keyed_nothing : Server.Keyed (targetKey names) (fun e _ ↦ ⟨e, false⟩) s
    (columnInsertion t layout b names .nothing) ps :=
  Upsert.keyed_nothing (fun _ ↦ hd.isSome_of_mem hs hp) (map_targetKey hs hp ▸ hd.nodup)

theorem keyed_update : Server.Keyed (targetKey names) (fun e p ↦ ⟨overwritten s t.table cs e p, true⟩) s
    (columnInsertion t layout b names (.update (cs.map .proposed) none)) ps :=
  Upsert.keyed_update (fun _ ↦ hd.isSome_of_mem hs hp) (map_targetKey hs hp ▸ hd.nodup)

end DistinctKeys

abbrev untouched (rows : List Row) : List Slot := rows.map (⟨·, false⟩)

theorem keys_untouched {κ : Row → Option (List Value)} (rows : List Row) : keys κ (untouched rows) = rows.map κ := by
  rw [keys, untouched, List.map_map]
  rfl

theorem offerAll_untouched {f : Row → Row → Slot} {i : Insert} {κ : Row → Option (List Value)}
    (h : Server.Keyed κ f s i ps) (hu : (rows.map κ).reduceOption.Nodup) :
    s.offerAll i (untouched rows) ps = some (after κ f ps (untouched rows)) := by
  refine Server.offerAll_eq h ⟨keys_untouched rows ▸ hu, fun x hx ht ↦ ?_⟩
  obtain ⟨e, -, rfl⟩ := List.mem_map.1 hx
  cases ht

/-- Slots after every row has been stored or has updated a stored one: the values that were set are there. -/
structure Updated (names cs : List String) (rows : List Row) (xs : List Slot) : Prop where
  unique : (keys (targetKey names) xs).reduceOption.Nodup
  touched_iff : ∀ x ∈ xs, x.touched = true ↔ targetKey names x.row ∈ rows.map (targetKey names)
  values : ∀ x ∈ xs, x.touched = true → ∃ row ∈ rows, targetKey names x.row = targetKey names row ∧
    ∀ c ∈ cs, x.row.get? c = some (row.get c)
  stored : ∀ row ∈ rows, targetKey names row ∈ keys (targetKey names) xs

abbrev updateSlot (s : Server) (table : String) (cs : List String) (e p : Row) : Slot :=
  ⟨overwritten s table cs e p, true⟩

theorem updated_after (hd : DistinctKeys names b.rows) (hs : names ⊆ layout) (hcs : cs ⊆ layout)
    (hp : List.Forall₂ (Proposes layout) ps b.rows) {stored : List Row} (hu : UniqueKeys names stored) :
    Updated names cs b.rows (after (targetKey names) (updateSlot s t.table cs) ps (untouched stored)) := by
  have hk : Server.Keyed (targetKey names) (updateSlot s t.table cs) s
      (columnInsertion t layout b names (.update (cs.map .proposed) none)) ps := hd.keyed_update hs hp
  have hm := map_targetKey hs hp
  -- A slot was left as it was, was updated, or is new.
  refine ⟨Server.nodup_keys hk (keys_untouched stored ▸ hu), fun x hx ↦ ?_, fun x hx ht ↦ ?_, fun row hr ↦ ?_⟩
  · rw [← hm]
    rcases Server.mem_after_cases hx with ⟨y, hy, hn, rfl⟩ | ⟨y, hy, p, hpm, he, rfl⟩ | ⟨p, hpm, hn, rfl⟩
    · obtain ⟨e, -, rfl⟩ := List.mem_map.1 hy
      exact ⟨fun ht ↦ (by cases ht), fun hm ↦ absurd hm hn⟩
    · refine ⟨fun _ ↦ ?_, fun _ ↦ rfl⟩
      rw [hk.key_eq p hpm y.row he.symm, ← he]
      exact List.mem_map_of_mem hpm
    · exact ⟨fun _ ↦ List.mem_map_of_mem hpm, fun _ ↦ rfl⟩
  · rcases Server.mem_after_cases hx with ⟨y, hy, hn, rfl⟩ | ⟨y, hy, p, hpm, he, rfl⟩ | ⟨p, hpm, hn, rfl⟩
    · obtain ⟨e, -, rfl⟩ := List.mem_map.1 hy
      cases ht
    · obtain ⟨row, hr, h⟩ := Except.exists_of_mem_forall₂ hp.flip hpm
      refine ⟨row, hr, ?_, fun c hc ↦ ?_⟩
      · rw [hk.key_eq p hpm y.row he.symm, ← he, targetKey_of_proposes hs h]
      · rw [get?_overwritten hc, Proposes.get_eq h (hcs hc)]
    · obtain ⟨row, hr, h⟩ := Except.exists_of_mem_forall₂ hp.flip hpm
      exact ⟨row, hr, targetKey_of_proposes hs h, fun c hc ↦ h c (hcs hc)⟩
  · have hr : targetKey names row ∈ ps.map (targetKey names) := hm ▸ List.mem_map_of_mem hr
    obtain ⟨p, hpm, he⟩ := List.mem_map.1 hr
    exact he ▸ Server.mem_keys hk (untouched stored) hpm

theorem fresh_eq_nil (hs : names ⊆ layout) (hp : List.Forall₂ (Proposes layout) ps rows)
    {ks : List (Option (List Value))} (h : ∀ row ∈ rows, targetKey names row ∈ ks) :
    fresh (targetKey names) ks ps = [] := by
  refine List.eq_nil_iff_forall_not_mem.2 fun x hx ↦ ?_
  obtain ⟨p, hpm, hn, -⟩ := Server.mem_fresh.1 hx
  obtain ⟨row, hr, hpr⟩ := Except.exists_of_mem_forall₂ hp.flip hpm
  exact hn (targetKey_of_proposes hs hpr ▸ h row hr)

/-- A row that is proposed again leaves what it has left before. -/
theorem Updated.settled_eq (h : Updated names cs b.rows xs) (hd : DistinctKeys names b.rows) (hs : names ⊆ layout)
    (hcs : cs ⊆ layout) (hp : List.Forall₂ (Proposes layout) ps b.rows) {x : Slot} (hx : x ∈ xs) :
    settled (targetKey names) (updateSlot s t.table cs) ps ⟨x.row, false⟩ = x := by
  obtain ⟨e, touched⟩ := x
  have hm := map_targetKey hs hp
  have ht := h.touched_iff _ hx
  rcases Server.settled_cases (targetKey names) (updateSlot s t.table cs) ps ⟨e, false⟩ with
    ⟨hn, he⟩ | ⟨p, hpm, hk, he⟩
  · rw [hm] at hn
    have htouched : touched = false := Bool.eq_false_iff.2 (mt ht.1 hn)
    rw [he, htouched]
  · have hk : targetKey names p = targetKey names e := hk
    have htouched : touched = true := by
      refine ht.2 ?_
      rw [← hm, ← hk]
      exact List.mem_map_of_mem hpm
    -- The row that left its values here is the one that is proposed again.
    obtain ⟨row, hr, hkr, hv⟩ := h.values _ hx htouched
    obtain ⟨row', hr', hpr⟩ := Except.exists_of_mem_forall₂ hp.flip hpm
    have hkey : targetKey names row' = targetKey names row := (targetKey_of_proposes hs hpr).symm.trans (hk.trans hkr)
    obtain rfl := List.inj_on_of_nodup_map hd.nodup hr' hr hkey
    have hself : overwritten s t.table cs e p = e := by
      refine overwritten_eq_self fun c hc ↦ ?_
      rw [hv c hc, Proposes.get_eq hpr (hcs hc)]
    rw [he, updateSlot, hself, htouched]

theorem after_of_updated (hd : DistinctKeys names b.rows) (hs : names ⊆ layout) (hcs : cs ⊆ layout)
    (hp : List.Forall₂ (Proposes layout) ps b.rows) (h : Updated names cs b.rows xs) :
    after (targetKey names) (updateSlot s t.table cs) ps (untouched (xs.map Slot.row)) = xs := by
  have hstored : ∀ row ∈ b.rows, targetKey names row ∈ keys (targetKey names) (untouched (xs.map Slot.row)) := by
    rw [keys_untouched, List.map_map]
    exact h.stored
  have hsettled : ∀ x ∈ xs, settled (targetKey names) (updateSlot s t.table cs) ps ⟨x.row, false⟩ = x :=
    fun x hx ↦ h.settled_eq hd hs hcs hp hx
  rw [after, fresh_eq_nil hs hp hstored, List.append_nil, untouched, List.map_map, List.map_map]
  exact (List.map_congr_left hsettled).trans (List.map_id' xs)

theorem execute_update (hd : DistinctKeys names b.rows) (hs : names ⊆ layout) (hcs : cs ⊆ layout) (st : Storage)
    (hu : UniqueKeys names st.rows) :
    let i := columnInsertion t layout b names (.update (cs.map .proposed) none)
    ∃ xs n, Updated names cs b.rows xs ∧ s.execute i st =
      (.ok (s.order st.proposals ((touchedRows xs).map (returnedRow s.meaning i.returning))),
        ⟨xs.map Slot.row, n⟩) := by
  intro i
  have hp : List.Forall₂ (Proposes layout) (s.proposals i st.proposals) b.rows := forall₂_proposals _ _ _
  exact ⟨_, _, updated_after (s := s) (t := t) hd hs hcs hp hu,
    execute_eq _ (offerAll_untouched (hd.keyed_update hs hp) hu)⟩

theorem execute_update_again (hd : DistinctKeys names b.rows) (hs : names ⊆ layout) (hcs : cs ⊆ layout)
    (h : Updated names cs b.rows xs) (n : Nat) :
    let i := columnInsertion t layout b names (.update (cs.map .proposed) none)
    ∃ n', s.execute i ⟨xs.map Slot.row, n⟩ =
      (.ok (s.order n ((touchedRows xs).map (returnedRow s.meaning i.returning))), ⟨xs.map Slot.row, n'⟩) := by
  intro i
  have hp : List.Forall₂ (Proposes layout) (s.proposals i n) b.rows := forall₂_proposals _ _ _
  have hu : UniqueKeys names (xs.map Slot.row) := by
    rw [UniqueKeys, List.map_map]
    exact h.unique
  have hk : Server.Keyed (targetKey names) (updateSlot s t.table cs) s i (s.proposals i n) := hd.keyed_update hs hp
  have ho := offerAll_untouched hk hu
  rw [after_of_updated hd hs hcs hp h] at ho
  exact ⟨_, execute_eq _ ho⟩

structure Added (names : List String) (layout : Layout) (rows stored added : List Row) : Prop where
  proposed : ∀ e ∈ added, ∃ row ∈ rows, targetKey names row ∉ stored.map (targetKey names) ∧ Proposes layout e row
  complete : ∀ row ∈ rows, targetKey names row ∉ stored.map (targetKey names) → ∃ e ∈ added, Proposes layout e row
  nodup : (added.map (targetKey names)).Nodup

theorem added_fresh (hd : DistinctKeys names rows) (hs : names ⊆ layout)
    (hp : List.Forall₂ (Proposes layout) ps rows) (stored : List Row) :
    Added names layout rows stored ((fresh (targetKey names) (stored.map (targetKey names)) ps).map Slot.row) := by
  refine ⟨fun e he ↦ ?_, fun row hr hn ↦ ?_, ?_⟩
  · obtain ⟨x, hx, rfl⟩ := List.mem_map.1 he
    obtain ⟨p, hpm, hn, rfl⟩ := Server.mem_fresh.1 hx
    obtain ⟨row, hr, h⟩ := Except.exists_of_mem_forall₂ hp.flip hpm
    exact ⟨row, hr, targetKey_of_proposes hs h ▸ hn, h⟩
  · obtain ⟨p, hpm, h⟩ := Except.exists_of_mem_forall₂ hp hr
    refine ⟨p, List.mem_map_of_mem (f := Slot.row) (Server.mem_fresh.2 ⟨p, hpm, ?_, rfl⟩), h⟩
    rwa [targetKey_of_proposes hs h]
  · rw [List.map_map]
    exact Server.nodup_keys_fresh (map_targetKey hs hp ▸ hd.nodup) _

namespace Added

variable {stored added : List Row} (h : Added names layout rows stored added) (hs : names ⊆ layout)

include h hs

theorem unique (hu : UniqueKeys names stored) : UniqueKeys names (stored ++ added) := by
  rw [UniqueKeys, List.map_append]
  refine Server.nodup_append_keys hu h.nodup fun k hk ↦ ?_
  obtain ⟨e, he, rfl⟩ := List.mem_map.1 hk
  obtain ⟨row, -, hn, hp⟩ := h.proposed e he
  rwa [targetKey_of_proposes hs hp]

theorem mem_keys : ∀ row ∈ rows, targetKey names row ∈ (stored ++ added).map (targetKey names) := by
  intro row hr
  rw [List.map_append, List.mem_append]
  by_cases hk : targetKey names row ∈ stored.map (targetKey names)
  · exact .inl hk
  · obtain ⟨e, he, hp⟩ := h.complete row hr hk
    exact .inr (targetKey_of_proposes hs hp ▸ List.mem_map_of_mem he)

end Added

theorem after_untouched (stored : List Row) :
    after (targetKey names) (fun e _ ↦ ⟨e, false⟩) ps (untouched stored) =
      untouched stored ++ fresh (targetKey names) (stored.map (targetKey names)) ps := by
  have hs : ∀ x ∈ untouched stored, settled (targetKey names) (fun e _ ↦ ⟨e, false⟩) ps x = x := by
    intro x hx
    obtain ⟨e, -, rfl⟩ := List.mem_map.1 hx
    rcases Server.settled_cases (targetKey names) (fun e _ ↦ ⟨e, false⟩) ps ⟨e, false⟩ with
      ⟨-, h⟩ | ⟨p, -, -, h⟩ <;> exact h
  rw [after, keys_untouched]
  exact congrArg (· ++ _) ((List.map_congr_left hs).trans (List.map_id' _))

theorem map_row_untouched (stored : List Row) : (untouched stored).map Slot.row = stored := by
  rw [untouched, List.map_map]
  exact List.map_id' stored

theorem touchedRows_append_fresh (stored : List Row) (ks : List (Option (List Value))) :
    touchedRows (untouched stored ++ fresh (targetKey names) ks ps) = (fresh (targetKey names) ks ps).map Slot.row := by
  have hu : (untouched stored).filter Slot.touched = [] := by
    refine List.filter_eq_nil_iff.2 fun x hx ↦ ?_
    obtain ⟨e, -, rfl⟩ := List.mem_map.1 hx
    exact Bool.false_ne_true
  have hf : (fresh (targetKey names) ks ps).filter Slot.touched = fresh (targetKey names) ks ps := by
    refine List.filter_eq_self.2 fun x hx ↦ ?_
    obtain ⟨p, -, -, rfl⟩ := Server.mem_fresh.1 hx
    rfl
  rw [touchedRows, List.filter_append, hu, hf, List.nil_append]

theorem execute_nothing (hd : DistinctKeys names b.rows) (hs : names ⊆ layout) (st : Storage)
    (hu : UniqueKeys names st.rows) :
    let i := columnInsertion t layout b names .nothing
    ∃ added n, Added names layout b.rows st.rows added ∧
      s.execute i st = (.ok (s.order st.proposals (added.map (returnedRow s.meaning i.returning))),
        ⟨st.rows ++ added, n⟩) := by
  intro i
  have hp : List.Forall₂ (Proposes layout) (s.proposals i st.proposals) b.rows := forall₂_proposals _ _ _
  have ho := offerAll_untouched (hd.keyed_nothing (s := s) (t := t) (b := b) hs hp) hu
  have he := execute_eq _ ho
  rw [after_untouched, touchedRows_append_fresh, List.map_append, map_row_untouched] at he
  exact ⟨_, _, added_fresh hd hs hp st.rows, he⟩

theorem execute_nothing_again (hd : DistinctKeys names b.rows) (hs : names ⊆ layout) {stored : List Row}
    (hu : UniqueKeys names stored) (hm : ∀ row ∈ b.rows, targetKey names row ∈ stored.map (targetKey names)) (n : Nat) :
    ∃ n', s.execute (columnInsertion t layout b names .nothing) ⟨stored, n⟩ = (.ok [], ⟨stored, n'⟩) := by
  have hp : List.Forall₂ (Proposes layout) (s.proposals (columnInsertion t layout b names .nothing) n) b.rows :=
    forall₂_proposals _ _ _
  have he := execute_eq (i := columnInsertion t layout b names .nothing) ⟨stored, n⟩
    (offerAll_untouched (hd.keyed_nothing hs hp) hu)
  have hf := fresh_eq_nil hs hp hm
  have hn (n : Nat) : s.order n [] = [] := (s.order_perm n []).eq_nil
  rw [after_untouched, touchedRows_append_fresh, List.map_append, map_row_untouched, hf, List.map_nil, List.map_nil,
    hn, List.append_nil] at he
  exact ⟨_, he⟩

end

end Upsert
