import Mathlib.Data.List.Induction
import Upsert.Engine.Key
import Upsert.Proofs.Plan.Arbiter
import Upsert.Proofs.Plan.KeyKept
import Upsert.Proofs.Server.Execution
import Upsert.Proofs.Text.Digits

namespace Upsert

open Sql (Arbiter Meaning Reaction Scene Term returnedFields returnedRow)

variable {names : List String} {pairs : List KeyedColumn} {sources : List KeySource} {t : Target} {layout : Layout}
  {b : Batch} {st : Statement} {fullRow : Bool}

theorem distinct_eq_eraseDups (names : List String) : distinct names = names.eraseDups := by
  induction names using List.reverseRecOn with
  | nil => rfl
  | append_singleton names c ih =>
    rw [distinct, List.foldl_append, List.foldl_cons, List.foldl_nil, ← distinct, ih, Row.eraseDups_concat]
    simp only [List.contains_iff_mem, List.mem_eraseDups]

theorem keyLabel_inj {a b : Nat} (h : keyLabel a = keyLabel b) : a = b := by
  have hr : Nat.repr a = Nat.repr b := (String.append_right_inj _).1 h
  have hd : Nat.toDigits 10 a = Nat.toDigits 10 b := by rw [← Nat.toList_repr, hr, Nat.toList_repr]
  rw [← Text.ofDigits_toDigits a, hd, Text.ofDigits_toDigits]

def keyLabels (index : Nat) (pairs : List KeyedColumn) : List String := (List.range' index pairs.length).map keyLabel

theorem nodup_keyLabels (index : Nat) (pairs : List KeyedColumn) : (keyLabels index pairs).Nodup :=
  (List.nodup_range' _).map fun _ _ ↦ keyLabel_inj

theorem keyLabels_cons (index : Nat) (p : KeyedColumn) (pairs : List KeyedColumn) :
    keyLabels index (p :: pairs) = keyLabel index :: keyLabels (index + 1) pairs := rfl

theorem length_keyLabels (index : Nat) (pairs : List KeyedColumn) : (keyLabels index pairs).length = pairs.length := by
  rw [keyLabels, List.length_map, List.length_range']

def KeyedColumn.source (p : KeyedColumn) (label : String) : KeySource := .keyed p.column p.key label

def KeyedColumn.labelled (p : KeyedColumn) (label : String) : Term := .labelled p.toTerm label

theorem keyedSources_eq (index : Nat) (pairs : List KeyedColumn) :
    keyedSources index pairs = pairs.zipWith KeyedColumn.source (keyLabels index pairs) := by
  induction pairs generalizing index with
  | nil => rfl
  | cons p pairs ih => rw [keyedSources, ih, keyLabels_cons, List.zipWith_cons_cons, KeyedColumn.source]

theorem filterMap_labelled?_keyedSources (index : Nat) (pairs : List KeyedColumn) :
    (keyedSources index pairs).filterMap KeySource.labelled? =
      pairs.zipWith KeyedColumn.labelled (keyLabels index pairs) := by
  induction pairs generalizing index with
  | nil => rfl
  | cons p pairs ih =>
    rw [keyedSources, List.filterMap_cons_some (f := KeySource.labelled?) rfl, ih, keyLabels_cons,
      List.zipWith_cons_cons, KeyedColumn.labelled, KeyedColumn.toTerm]

theorem synthetic_keyedSources (index : Nat) (pairs : List KeyedColumn) :
    KeySource.synthetic (keyedSources index pairs) = keyLabels index pairs := by
  induction pairs generalizing index with
  | nil => rfl
  | cons p pairs ih =>
    simp only [KeySource.synthetic] at ih ⊢
    rw [keyedSources, List.filterMap_cons_some (f := KeySource.label?) rfl, ih, keyLabels_cons]

theorem filterMap_labelled? : (names.map KeySource.column).filterMap KeySource.labelled? = [] :=
  List.filterMap_eq_nil_iff.2 fun x hx ↦ by
    obtain ⟨c, -, rfl⟩ := List.mem_map.1 hx
    rfl

theorem synthetic_columns : KeySource.synthetic (names.map .column) = [] :=
  List.filterMap_eq_nil_iff.2 fun x hx ↦ by
    obtain ⟨c, -, rfl⟩ := List.mem_map.1 hx
    rfl

variable {m : Meaning} {e : Row}

theorem mem_columns_returned {c : String} (hc : .column c ∈ sources) :
    c ∈ distinct (t.primaryKey ++ sources.filterMap KeySource.plain?) := by
  rw [distinct_eq_eraseDups, List.mem_eraseDups]
  exact List.mem_append_right _ (List.mem_filterMap.2 ⟨.column c, hc, rfl⟩)

theorem map_name_labelled (m : Meaning) (e : Row) (sources : List KeySource) :
    ((sources.filterMap KeySource.labelled?).flatMap (returnedFields m e)).map Field.name =
      KeySource.synthetic sources := by
  rw [KeySource.synthetic]
  induction sources with
  | nil => rfl
  | cons s sources ih =>
    cases s with
    | column c => exact ih
    | keyed c k l => exact congrArg (l :: ·) ih

theorem value_of_mem_returned {x : Field} (hx : x ∈ (returning t fullRow sources).flatMap (returnedFields m e))
    (hn : x.name ∉ KeySource.synthetic sources) : x.value = e.get x.name := by
  rw [returning, List.flatMap_append] at hx
  rcases List.mem_append.1 hx with hx | hx
  · obtain ⟨y, hy, hx⟩ := List.mem_flatMap.1 hx
    split at hy
    · obtain rfl := List.mem_singleton.1 hy
      obtain ⟨c, -, rfl⟩ := List.mem_map.1 hx
      rfl
    · obtain ⟨c, -, rfl⟩ := List.mem_map.1 hy
      obtain rfl := List.mem_singleton.1 hx
      rfl
  · rw [← map_name_labelled m e] at hn
    exact absurd (List.mem_map_of_mem hx) hn

theorem get_returnedRow_of_mem {x : Field} (hx : x ∈ (returning t fullRow sources).flatMap (returnedFields m e))
    (hn : x.name ∉ KeySource.synthetic sources) :
    (returnedRow m (returning t fullRow sources) e).get x.name = e.get x.name := by
  rcases Row.empty.get?_setAll_cases ((returning t fullRow sources).flatMap (returnedFields m e)) x.name with
    ⟨hne, -⟩ | ⟨y, hy, hname, hv⟩
  · exact absurd rfl (hne x hx)
  · rw [Row.get, returnedRow, Row.ofFields, hv, Option.getD_some, value_of_mem_returned hy (hname ▸ hn), hname]

theorem get?_eq_none_of_returned {c : String} (hc : c ∈ names)
    (hn : ∀ x ∈ (returning t fullRow (names.map .column)).flatMap (returnedFields m e), x.name ≠ c) :
    e.get? c = none := by
  rw [returning, filterMap_labelled?, List.append_nil] at hn
  refine Row.get?_of_notMem fun hm ↦ ?_
  cases fullRow with
  | true =>
    refine hn ⟨c, e.get c⟩ (List.mem_flatMap.2 ⟨.all, List.mem_singleton_self _, ?_⟩) rfl
    exact List.mem_map_of_mem (f := fun c ↦ (⟨c, e.get c⟩ : Field)) hm
  | false =>
    have hd := mem_columns_returned (t := t) (List.mem_map_of_mem (f := KeySource.column) hc)
    exact hn ⟨c, e.get c⟩ (List.mem_flatMap.2 ⟨.column none c, List.mem_map_of_mem hd, List.mem_singleton_self _⟩) rfl

theorem get_returnedRow (t : Target) (fullRow : Bool) (m : Meaning) (e : Row) {c : String} (hc : c ∈ names) :
    (returnedRow m (returning t fullRow (names.map .column)) e).get c = e.get c := by
  rcases Row.empty.get?_setAll_cases
      ((returning t fullRow (names.map .column)).flatMap (returnedFields m e)) c with ⟨hn, hg⟩ | ⟨x, hx, rfl, -⟩
  · rw [Row.get, returnedRow, Row.ofFields, hg, Row.get, get?_eq_none_of_returned hc hn]
    rfl
  · exact get_returnedRow_of_mem hx (synthetic_columns ▸ List.not_mem_nil)

/-- A component that is returned under a label is read from there, also where the row has a column of that name: the
labels come last. -/
theorem get_returnedRow_label (t : Target) (fullRow : Bool) (m : Meaning) (e : Row)
    (hn : (KeySource.synthetic sources).Nodup) {c k l : String} (hs : .keyed c k l ∈ sources) :
    (returnedRow m (returning t fullRow sources) e).get l = m.extract (e.get c) k := by
  have hf : (⟨l, m.extract (e.get c) k⟩ : Field) ∈
      (sources.filterMap KeySource.labelled?).flatMap (returnedFields m e) :=
    List.mem_flatMap.2 ⟨_, List.mem_filterMap.2 ⟨_, hs, rfl⟩, List.mem_singleton_self _⟩
  rw [← map_name_labelled m e] at hn
  rw [returnedRow, returning, List.flatMap_append, Row.ofFields, Row.setAll_append, Row.get,
    Row.get?_setAll_of_nodup hn hf, Option.getD_some]

theorem keySources_cases (target : Option ConflictTarget) (hl : layout ≠ []) :
    (∃ names, names ≠ [] ∧ keySources target layout = names.map .column) ∨
      ∃ pairs, pairs ≠ [] ∧ target = some (.keyed pairs) ∧ keySources target layout = keyedSources 0 pairs := by
  unfold keySources
  split
  · exact .inl ⟨_, List.cons_ne_nil _ _, rfl⟩
  · exact .inl ⟨_, List.cons_ne_nil _ _, rfl⟩
  · exact .inr ⟨_, List.cons_ne_nil _ _, rfl, rfl⟩
  · exact .inl ⟨layout, hl, rfl⟩

theorem keySources_ne_nil (target : Option ConflictTarget) (hl : layout ≠ []) : keySources target layout ≠ [] := by
  rcases keySources_cases target hl with ⟨names, hn, hk⟩ | ⟨pairs, hp, -, hk⟩
  · simpa [hk] using hn
  · cases pairs with
    | nil => exact absurd rfl hp
    | cons p pairs => simp [hk, keyedSources]

theorem exists_predicate {arbiter : Option Arbiter} (hp : pairs ≠ []) (h : Resolves (some (.keyed pairs)) arbiter) :
    ∃ predicate, arbiter = some (.index (pairs.map KeyedColumn.toTerm) predicate) := by
  cases h with
  | keyed predicate _ => exact ⟨predicate, rfl⟩
  | bare he => exact absurd (List.isEmpty_iff.1 (he _ rfl)) hp

theorem returning_ne_nil (t : Target) (fullRow : Bool) (hs : sources ≠ []) : returning t fullRow sources ≠ [] := by
  obtain ⟨s, hs⟩ := List.exists_mem_of_ne_nil sources hs
  rw [returning]
  split
  · exact List.cons_ne_nil _ _
  · cases s with
    | column c =>
      have hc := List.mem_map_of_mem (f := Term.column none) (mem_columns_returned (t := t) hs)
      exact List.ne_nil_of_mem (List.mem_append_left _ hc)
    | keyed c k l =>
      have hk : KeySource.labelled? (.keyed c k l) = some (.labelled (.key (.column none c) k) l) := rfl
      exact List.ne_nil_of_mem (List.mem_append_right _ (List.mem_filterMap.2 ⟨_, hs, hk⟩))

theorem returning_of_statement (h : t.statement layout b = .ok st) :
    st.insert.returning = returning t b.returnFullRow st.keySources := by
  obtain ⟨-, arbiter, reaction, -, -, -, rfl⟩ := Target.statement_eq_ok_iff.1 h
  rfl

/-- What is returned for a key besides plain columns: nothing, if all its components are columns, and otherwise the
terms of the arbiter, each under a label of its own. -/
inductive KeyLabelled (st : Statement) : List Term → Prop
  | columns (names : List String) (sources : st.keySources = names.map .column) : KeyLabelled st []
  | keyed (pairs : List KeyedColumn) (labels : List String) (predicate : Option Term) (reaction : Reaction)
      (nodup : labels.Nodup) (length : labels.length = pairs.length)
      (sources : st.keySources = pairs.zipWith KeyedColumn.source labels)
      (arbiter : st.insert.onConflict = some ⟨some (.index (pairs.map KeyedColumn.toTerm) predicate), reaction⟩) :
    KeyLabelled st (pairs.zipWith KeyedColumn.labelled labels)

theorem keyLabelled_of_statement (h : t.statement layout b = .ok st) :
    KeyLabelled st (st.keySources.filterMap KeySource.labelled?) := by
  obtain ⟨hl, arbiter, reaction, ha, -, -, rfl⟩ := Target.statement_eq_ok_iff.1 h
  rcases keySources_cases b.conflictTarget hl with ⟨names, -, hs⟩ | ⟨pairs, hp, ht, hs⟩
  · rw [hs, filterMap_labelled?]
    exact .columns names rfl
  · obtain ⟨predicate, rfl⟩ := exists_predicate hp (ht ▸ resolves_of_resolveArbiter ha)
    rw [hs, filterMap_labelled?_keyedSources]
    exact .keyed pairs (keyLabels 0 pairs) predicate reaction (nodup_keyLabels 0 pairs) (length_keyLabels 0 pairs)
      (keyedSources_eq 0 pairs) rfl

theorem returnedValue_eq (h : t.statement layout b = .ok st) (m : Meaning) (e : Row) {s : KeySource}
    (hs : s ∈ st.keySources) : s.returnedValue (returnedRow m st.insert.returning e) = s.value m e := by
  obtain ⟨hl, arbiter, reaction, -, -, -, rfl⟩ := Target.statement_eq_ok_iff.1 h
  change s ∈ keySources b.conflictTarget layout at hs
  change s.returnedValue (returnedRow m (returning t b.returnFullRow (keySources b.conflictTarget layout)) e) = _
  rcases keySources_cases b.conflictTarget hl with ⟨names, -, hk⟩ | ⟨pairs, -, -, hk⟩
  · rw [hk] at hs ⊢
    obtain ⟨c, hc, rfl⟩ := List.mem_map.1 hs
    exact get_returnedRow t b.returnFullRow m e hc
  · rw [hk] at hs ⊢
    have hn : (KeySource.synthetic (keyedSources 0 pairs)).Nodup := by
      rw [synthetic_keyedSources]
      exact nodup_keyLabels 0 pairs
    have hm := List.mem_map_of_mem (f := KeySource.term) hs
    rw [map_term_keyedSources] at hm
    obtain ⟨p, -, hp⟩ := List.mem_map.1 hm
    obtain ⟨l, rfl⟩ := eq_keyed_of_term hp.symm
    exact get_returnedRow_label t b.returnFullRow m e hn hs

/-- A statement returns the primary key and the plain columns of its key, or all columns, and the labelled components
of its key; and from what comes back of a stored row each component is read as that row has it. -/
theorem returning_carries_key (h : t.statement layout b = .ok st) :
    st.insert.returning ≠ [] ∧
    (∃ labelled, KeyLabelled st labelled ∧ st.insert.returning = (if b.returnFullRow then [.all]
      else (t.primaryKey ++ st.keySources.filterMap KeySource.plain?).eraseDups.map (.column none)) ++ labelled) ∧
    ∀ (m : Meaning) (e : Row), ∀ s ∈ st.keySources,
      s.returnedValue (returnedRow m st.insert.returning e) = s.value m e := by
  have hr := returning_of_statement h
  have hs : st.keySources ≠ [] := by
    obtain ⟨hl, arbiter, reaction, -, -, -, rfl⟩ := Target.statement_eq_ok_iff.1 h
    exact keySources_ne_nil b.conflictTarget hl
  refine ⟨hr ▸ returning_ne_nil t b.returnFullRow hs, ⟨_, keyLabelled_of_statement h, ?_⟩, fun m e s ↦
    returnedValue_eq h m e⟩
  rw [hr, returning, distinct_eq_eraseDups]

theorem returning_carries_key_hidden :
    let m : Meaning := { compare := fun _ _ _ ↦ none, extract := fun v k ↦ v.extractKey k }
    let t : Target := ⟨none, "items", ["id"]⟩
    let title : Value := .json (.object [("en", .string "a")])
    let b : Batch := {
      rows := [⟨[⟨"title", title⟩]⟩]
      conflictTarget := some (.keyed [⟨"title", "en"⟩])
      action := .nothing
      returnFullRow := true }
    ∃ st, t.statement ["title"] b = .ok st ∧ ∀ s ∈ st.keySources,
      s.returnedValue (returnedRow m st.insert.returning
        ⟨[⟨"id", .int 1⟩, ⟨"title", title⟩, ⟨"__conflict_key_0", .int 7⟩]⟩) = .json (.string "a") := by
  intro m t title b
  obtain ⟨st, h⟩ : ∃ st, t.statement ["title"] b = .ok st := ⟨_, rfl⟩
  refine ⟨st, h, fun s hs ↦ ?_⟩
  obtain ⟨-, -, hv⟩ := returning_carries_key h
  rw [hv m _ s hs]
  cases h
  obtain rfl := List.mem_singleton.1 hs
  rfl

end Upsert
