import Upsert.Proofs.Key.Shape
import Upsert.Proofs.Key.Checker
import Upsert.Proofs.Reconciliation.Exactness

namespace Upsert

namespace Reconciliation

variable {t : Target} {b : Batch} {st : Statement} {sources : List KeySource} {rows returned : List Row}

/-- The values of the key at each place, sent and returned, are of one kind. -/
def OneKindEach (sources : List KeySource) (rows returned : List Row) : Prop :=
  ∀ s ∈ sources, Value.OneKind (s.sentValues rows ++ s.returnedValues returned)

instance : Decidable (OneKindEach sources rows returned) := inferInstanceAs (Decidable (∀ s ∈ sources, _))

theorem sentKey_eq_inputKey (hk : OneKindEach sources rows returned) {row : Row} (hr : row ∈ rows) :
    sentKey sources returned row = KeyChecker.inputKey sources row := by
  rw [sentKey, KeyChecker.inputKey, Key.ofSent_eq, Key.ofInput_eq]
  refine congrArg Key.toClass (List.map_congr_left fun s hs ↦ KeySource.readValue_of_not_foreign ?_)
  rintro ⟨w, hw, hn, hd⟩
  obtain ⟨hm, hwn⟩ := KeyShape.of_first?_eq_some hw
  exact hd (hk s hs _ (List.mem_append_left _ (List.mem_map_of_mem hr)) w (List.mem_append_right _ hm) hn hwn)

theorem returnedKey_eq_inputKey {row stored : Row}
    (h : ∀ s ∈ sources, (s.returnedValue stored).canonical = (s.sentValue row).canonical) :
    returnedKey sources stored = KeyChecker.inputKey sources row := by
  rw [returnedKey, KeyChecker.inputKey, Key.ofReturned, Key.ofInput_eq]
  exact congrArg Key.toClass (List.map_congr_left h)

/-- No answer is left over if each has the key of its own row, and no two rows have one key. -/
theorem leftOver_eq_zero_of_perm {S : Finset (Fin rows.length)} {answer : Fin rows.length → Row}
    (hn : (sentKeys sources returned rows).Nodup) (hp : returned.Perm (S.toList.map answer))
    (ha : ∀ i ∈ S, returnedKey sources (answer i) = sentKey sources returned (rows.get i)) :
    leftOver sources rows returned = 0 := by
  refine (leftOver_eq_zero_iff ..).2 ⟨?_, fun c hc ↦ ?_⟩
  · refine (hp.map _).nodup_iff.2 ?_
    rw [List.map_map]
    refine List.Nodup.map_on (fun i hi i' hi' he ↦ ?_) S.nodup_toList
    rw [Function.comp_apply, Function.comp_apply, ha i (Finset.mem_toList.1 hi),
      ha i' (Finset.mem_toList.1 hi')] at he
    exact eq_of_nodup_map hn he
  · obtain ⟨i, hi, rfl⟩ : ∃ i ∈ S, returnedKey sources (answer i) = c := by
      rw [returnedKeys, (hp.map _).mem_iff] at hc
      simpa using hc
    exact ha i hi ▸ List.mem_map_of_mem (List.get_mem _ i)

/-- Where keys are read as they were checked, each row takes the returned row of its key. -/
theorem reconcile_eq_ok_of_keys (hk : OneKindEach sources rows returned)
    (hn : (rows.map (KeyChecker.inputKey sources)).Nodup) (hd : (returnedKeys sources returned).Nodup)
    (hs : ∀ r ∈ returned, ∃ row ∈ rows, returnedKey sources r = KeyChecker.inputKey sources row) :
    reconcile sources rows returned = .ok (rows.map fun row ↦
      taken sources row (returned.find? fun r ↦ returnedKey sources r = KeyChecker.inputKey sources row)) := by
  have hm : sentKeys sources returned rows = rows.map (KeyChecker.inputKey sources) :=
    List.map_congr_left fun row hr ↦ sentKey_eq_inputKey hk hr
  have hl : leftOver sources rows returned = 0 := by
    refine (leftOver_eq_zero_iff ..).2 ⟨hd, fun c hc ↦ ?_⟩
    obtain ⟨r, hr, rfl⟩ := List.mem_map.1 hc
    obtain ⟨row, hrow, he⟩ := hs r hr
    rw [hm, he]
    exact List.mem_map_of_mem hrow
  refine (reconcile_eq_ok_iff ..).2 ⟨hl, List.ext_getElem? fun i ↦ ?_⟩
  rw [getElem?_walked sources hd, List.getElem?_map]
  cases hi : rows[i]? with
  | none => rfl
  | some row =>
    obtain ⟨hlt, rfl⟩ := List.getElem?_eq_some_iff.1 hi
    have hf : sentKey sources returned rows[i] ∉ (rows.take i).map (sentKey sources returned) := by
      intro hc
      obtain ⟨i', hi', he⟩ := (mem_keys_take ⟨i, hlt⟩ _).1 hc
      have hn : (sentKeys sources returned rows).Nodup := hm ▸ hn
      exact hi'.ne (eq_of_nodup_map hn he)
    rw [Option.map_some, Option.map_some, if_neg hf, sentKey_eq_inputKey hk (List.getElem_mem hlt)]

/-- Whatever the server skips, and in whatever order it answers, each answer goes to the row it belongs to and is laid
over it without the labels of the key. -/
theorem reconcile_prepared (h : t.prepare b = .ok st) (S : Finset (Fin b.rows.length))
    (answer : Fin b.rows.length → Row) (hp : returned.Perm (S.toList.map answer))
    (hc : ∀ i ∈ S, ∀ s ∈ st.keySources,
      (s.returnedValue (answer i)).canonical = (s.sentValue (b.rows.get i)).canonical)
    (hk : OneKindEach st.keySources b.rows returned) :
    (∃ outcomes, reconcile st.keySources b.rows returned = .ok outcomes ∧ outcomes.length = b.rows.length ∧
      ∀ i : Fin b.rows.length, outcomes[i.val]? = some (if i ∈ S then
        .applied ((b.rows.get i).overlay ((KeySource.synthetic st.keySources).foldl Row.erase (answer i)))
      else .skipped)) ∧
    ∀ i ∈ S, (answer i).columns.Nodup →
      (KeySource.synthetic st.keySources).foldl Row.erase (answer i) =
        (answer i).without (KeySource.synthetic st.keySources) := by
  -- Read as what was returned, the keys are those that were checked, and they are still distinct.
  have hs (i : Fin b.rows.length) : sentKey st.keySources returned (b.rows.get i) =
      KeyChecker.inputKey st.keySources (b.rows.get i) := sentKey_eq_inputKey hk (List.get_mem _ i)
  have ha (i : Fin b.rows.length) (hi : i ∈ S) : returnedKey st.keySources (answer i) =
      sentKey st.keySources returned (b.rows.get i) := (returnedKey_eq_inputKey (hc i hi)).trans (hs i).symm
  have hn : (sentKeys st.keySources returned b.rows).Nodup := by
    rw [sentKeys, List.map_congr_left fun row hr ↦ sentKey_eq_inputKey hk hr]
    exact Target.nodup_inputKey_of_prepare h
  have hm (r : Row) : r ∈ returned ↔ ∃ i ∈ S, answer i = r := by simp [hp.mem_iff]
  have hl : leftOver st.keySources b.rows returned = 0 := leftOver_eq_zero_of_perm hn hp ha
  have hd := ((leftOver_eq_zero_iff ..).1 hl).1
  have he := exact_walked hl
  refine ⟨⟨walked st.keySources b.rows returned, (reconcile_eq_ok_iff ..).2 ⟨hl, rfl⟩, he.length_eq, fun i ↦ ?_⟩,
    fun i _ hu ↦ Row.foldl_erase hu _⟩
  by_cases hi : i ∈ S
  · rw [if_pos hi, getElem?_walked_eq_applied hd]
    exact ⟨fun i' hlt hk' ↦ hlt.ne (eq_of_nodup_map hn hk'), answer i, (hm _).2 ⟨i, hi, rfl⟩, ha i hi, rfl⟩
  · rw [if_neg hi]
    refine he.skipped_of_not_applied i fun ⟨row, hr⟩ ↦ hi ?_
    obtain ⟨-, r, hr, hk', -⟩ := (getElem?_walked_eq_applied hd i row).1 hr
    obtain ⟨i', hi', rfl⟩ := (hm r).1 hr
    exact eq_of_nodup_map hn ((ha i' hi').symm.trans hk') ▸ hi'

theorem reconcile_prepared_decimal :
    let sent (v : Value) : Row := ⟨[⟨"k", v⟩]⟩
    let stored (n : Int64) (v : Value) : Row := ⟨[⟨"id", .int n⟩, ⟨"k", v⟩]⟩
    let applied (v : Value) (n : Int64) : Outcome := .applied ⟨[⟨"k", v⟩, ⟨"id", .int n⟩]⟩
    reconcile [.column "k"] [sent (.decimal ⟨150, 2⟩), sent (.decimal ⟨2, 0⟩), sent .null]
        [stored 2 .null, stored 1 (.decimal ⟨15, 1⟩)] =
      .ok [applied (.decimal ⟨15, 1⟩) 1, .skipped, applied .null 2] := by
  intro sent stored applied
  let rows : List Row := [sent (.decimal ⟨150, 2⟩), sent (.decimal ⟨2, 0⟩), sent .null]
  let returned : List Row := [stored 2 .null, stored 1 (.decimal ⟨15, 1⟩)]
  let answer (i : Fin rows.length) : Row := if i = 0 then stored 1 (.decimal ⟨15, 1⟩) else stored 2 .null
  let S : Finset (Fin rows.length) := {0, 2}
  have hp : returned.Perm (S.toList.map answer) := by
    have hs : S.toList.Perm [0, 2] := by
      refine (Finset.toList_insert (by decide)).trans ?_
      rw [Finset.toList_singleton]
    exact (List.Perm.swap _ _ _).trans (hs.map answer).symm
  let t : Target := ⟨none, "items", ["id"]⟩
  let b : Batch := { rows, conflictTarget := some (.columns ["k"]), action := .nothing }
  let st : Statement := {
    insert := {
      table := t.tableName
      columns := ["k"]
      rows := [[.value (.decimal ⟨150, 2⟩)], [.value (.decimal ⟨2, 0⟩)], [.value .null]]
      onConflict := some ⟨some (.index [.column none "k"] none), .nothing⟩
      returning := [.column none "id", .column none "k"] }
    keySources := [.column "k"] }
  have h : t.prepare b = .ok st := rfl
  have hc : ∀ i ∈ S, ∀ s ∈ st.keySources,
      (s.returnedValue (answer i)).canonical = (s.sentValue (b.rows.get i)).canonical := by
    intro i hi s hs
    obtain rfl := List.mem_singleton.1 hs
    obtain rfl | hi := Finset.mem_insert.1 hi
    · rfl
    · obtain rfl := Finset.mem_singleton.1 hi
      rfl
  obtain ⟨⟨outcomes, ho, hl, hi⟩, -⟩ := reconcile_prepared h S answer hp hc (by decide)
  obtain ⟨first, second, third, rfl⟩ := List.length_eq_three.1 hl
  have hfirst : some first = some (applied (.decimal ⟨15, 1⟩) 1) := hi 0
  have hsecond : some second = some .skipped := hi 1
  have hthird : some third = some (applied .null 2) := hi 2
  rw [Option.some.inj hfirst, Option.some.inj hsecond, Option.some.inj hthird] at ho
  exact ho

end Reconciliation

end Upsert
