import Upsert.Proofs.Plan.Statement
import Upsert.Proofs.Sql.Evaluation

namespace Upsert

open Sql (Setting Scene Meaning Term updated)

def KeySource.value (m : Meaning) (row : Row) : KeySource → Value
  | .column c => row.get c
  | .keyed c k _ => m.extract (row.get c) k

section

variable {table : String} {target : Option ConflictTarget} {layout : Layout} {sources : List KeySource}
  {set : UpdateSet} {settings : List Setting} {x : Setting}

/-- A setting of a column of the key keeps the proposed value, or the one that is stored. -/
def KeepsKey (table : String) (sources : List KeySource) (x : Setting) : Prop :=
  (∃ s ∈ sources, s.name = x.column) → x.value = .excluded x.column ∨ x.value = .column (some table) x.column

theorem keepsKey_proposed (c : String) : KeepsKey table sources (.proposed c) := fun _ ↦ .inl rfl

theorem Assignment.keepsKey_of_lower {a : Assignment} (h : a.lower table sources = .ok x) :
    KeepsKey table sources x := by
  rw [lower] at h
  split at h
  · cases h
  · rename_i hk
    obtain ⟨v, hv, h⟩ := Except.bind_eq_ok_iff.1 h
    cases h
    rintro ⟨s, hs, hn⟩
    have hany : sources.any (fun s ↦ s.name == a.column) = true := List.any_eq_true.2 ⟨s, hs, by simpa using hn⟩
    have hp : a.keepsProposed = true := by simpa [hany] using hk
    refine .inl ?_
    rw [keepsProposed] at hp
    split at hp
    · rename_i name ha
      obtain rfl : name = a.column := by simpa using hp
      rw [ha, Expression.lower, Scope.proposed] at hv
      split at hv
      · cases hv
      · cases hv
        rfl
    · cases hp

theorem keepsKey_of_settings (h : set.settings table target layout sources = .ok settings) (hx : x ∈ settings) :
    KeepsKey table sources x := by
  cases set with
  | inserted =>
    cases h
    obtain ⟨c, -, rfl⟩ := List.mem_map.1 hx
    exact keepsKey_proposed c
  | columns names =>
    rw [UpdateSet.settings] at h
    split at h
    · cases h
    · cases h
      obtain ⟨c, -, rfl⟩ := List.mem_map.1 hx
      exact keepsKey_proposed c
  | assignments list =>
    obtain ⟨a, -, ha⟩ := Except.exists_of_mem_mapM h hx
    exact Assignment.keepsKey_of_lower ha

theorem keepsKey_of_preserving (hx : x ∈ preservingSettings table target layout) :
    KeepsKey table sources x := by
  rw [preservingSettings] at hx
  split at hx
  · obtain ⟨c, -, rfl⟩ := List.mem_map.1 hx
    exact fun _ ↦ .inr rfl
  · obtain ⟨c, -, rfl⟩ := List.mem_map.1 hx
    exact keepsKey_proposed c

theorem keepsKey_of_lower (h : set.lower table target layout sources = .ok settings) (hx : x ∈ settings) :
    KeepsKey table sources x := by
  obtain ⟨asked, ha, rfl⟩ := UpdateSet.lower_eq_ok_iff.1 h
  split at hx
  · exact keepsKey_of_preserving hx
  · exact keepsKey_of_settings ha hx

variable (m : Meaning) {e p : Row}

theorem get_updated_of_keepsKey (h : ∀ x ∈ settings, KeepsKey table sources x) {s : KeySource} (hs : s ∈ sources) :
    (updated m ⟨table, e, p⟩ settings).get s.name = e.get s.name ∨
      (updated m ⟨table, e, p⟩ settings).get s.name = p.get s.name := by
  rcases Sql.get_updated_cases m ⟨table, e, p⟩ settings s.name with ⟨-, hg⟩ | ⟨x, hx, hn, hg⟩
  · exact .inl hg
  · rw [hg, ← hn]
    rcases h x hx ⟨s, hs, hn.symm⟩ with hv | hv
    · exact .inr (by rw [hv, Term.eval])
    · exact .inl (by rw [hv, Term.eval, if_pos rfl])

theorem value_updated_cases (h : set.lower table target layout sources = .ok settings) {s : KeySource}
    (hs : s ∈ sources) : s.value m (updated m ⟨table, e, p⟩ settings) = s.value m e ∨
      s.value m (updated m ⟨table, e, p⟩ settings) = s.value m p := by
  have hg := get_updated_of_keepsKey m (e := e) (p := p) (fun x ↦ keepsKey_of_lower h) hs
  cases s with
  | column c => exact hg
  | keyed c k l => exact hg.imp (congrArg (m.extract · k)) (congrArg (m.extract · k))

theorem get_updated_proposed (s : Scene) (names : List String) (c : String) :
    (updated m s (names.map .proposed)).get c = if c ∈ names then s.proposed.get c else s.stored.get c := by
  rcases Sql.get_updated_cases m s (names.map .proposed) c with ⟨hn, hg⟩ | ⟨x, hx, hc, hg⟩
  · have hm : c ∉ names := fun hm ↦ hn _ (List.mem_map_of_mem hm) rfl
    rw [hg, if_neg hm]
  · obtain ⟨name, hm, rfl⟩ := List.mem_map.1 hx
    obtain rfl : name = c := hc
    rw [hg, if_pos hm]
    rfl

theorem lower_inserted_of_unkeyed (ht : plainColumns target = []) (hl : layout ≠ []) :
    UpdateSet.inserted.lower table target layout sources = .ok (layout.map .proposed) := by
  refine UpdateSet.lower_eq_ok_iff.2 ⟨layout.map .proposed, ?_, (if_neg ?_).symm⟩
  · simp [UpdateSet.settings, ht]
  · simpa using hl

end

/-- A stored row that is updated has the key of the row that was proposed, if both have one key; or, where the key
is not known, whatever their keys. -/
theorem key_kept {t : Target} {layout : Layout} {b : Batch} {st : Statement} (m : Meaning)
    (h : t.statement layout b = .ok st) (hu : b.action.isUpdate = true) :
    ∃ arbiter settings condition, st.insert.onConflict = some ⟨arbiter, .update settings condition⟩ ∧
      ∀ e p : Row, ((∀ s ∈ st.keySources, s.value m e = s.value m p) ∨
          ∃ name, b.conflictTarget = some (.constraint name [])) →
        ∀ s ∈ st.keySources, s.value m (updated m ⟨t.table, e, p⟩ settings) = s.value m p := by
  obtain ⟨hl, arbiter, reaction, -, hk, hr, rfl⟩ := Target.statement_eq_ok_iff.1 h
  cases hb : b.action with
  | nothing =>
    rw [hb] at hu
    cases hu
  | update set condition =>
    rw [hb] at hr
    obtain ⟨hi, settings, condition', hs, -, rfl⟩ := Action.lower_update_eq_ok_iff.1 hr
    refine ⟨arbiter, settings, condition', rfl, fun e p hep s hm ↦ ?_⟩
    rcases hep with he | ⟨name, ht⟩
    · rcases value_updated_cases m hs hm with hv | hv
      · exact hv.trans (he s hm)
      · exact hv
    · -- Such a target is updated by the default set only, which holds the whole key.
      have hd : set = .inserted := by
        cases set with
        | inserted => rfl
        | _ => rw [ht] at hi; cases hi rfl
      have hp : plainColumns b.conflictTarget = [] := by rw [ht]; rfl
      rw [hd, lower_inserted_of_unkeyed hp hl] at hs
      cases hs
      obtain ⟨c, hc, rfl⟩ : ∃ c ∈ layout, KeySource.column c = s := by
        rw [ht] at hm
        exact List.mem_map.1 hm
      exact (get_updated_proposed m _ _ _).trans (if_pos hc)

theorem key_kept_title :
    let m : Meaning := { compare := fun _ _ _ ↦ none, extract := fun v k ↦ v.extractKey k }
    let title (members : List (String × Json)) : Row := ⟨[⟨"title", .json (.object members)⟩]⟩
    let e := title [("en", .string "a"), ("ro", .string "b")]
    let p := title [("en", .string "a")]
    let s : KeySource := .keyed "title" "en" "__conflict_key_0"
    s.value m e = s.value m p ∧
      s.value m (updated m ⟨"items", e, p⟩ [⟨"title", .column (some "items") "title"⟩]) = s.value m p := by
  intro m title e p s
  let t : Target := ⟨none, "items", ["id"]⟩
  let b : Batch := {
    rows := [p]
    conflictTarget := some (.keyed [⟨"title", "en"⟩])
    action := .update (.columns []) none }
  let st : Statement := {
    insert := {
      table := t.tableName
      columns := ["title"]
      rows := [[.value (.json (.object [("en", .string "a")]))]]
      onConflict := some ⟨some (.index [.key (.column none "title") "en"] none),
        .update [⟨"title", .column (some "items") "title"⟩] none⟩
      returning := [.column none "id", .labelled (.key (.column none "title") "en") "__conflict_key_0"] }
    keySources := [s] }
  have h : t.statement ["title"] b = .ok st := rfl
  obtain ⟨arbiter, settings, condition, hc, hk⟩ := key_kept m h rfl
  cases hc
  have hv : s.value m e = s.value m p := rfl
  exact ⟨hv, hk e p (.inl (by simpa [st] using hv)) s (List.mem_singleton_self s)⟩

end Upsert
