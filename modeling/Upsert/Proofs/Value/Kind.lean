import Upsert.Value.Canonical

namespace Upsert.Value

def SameKind (v w : Value) : Prop := v.ctorIdx = w.ctorIdx

instance (v w : Value) : Decidable (v.SameKind w) := inferInstanceAs (Decidable (_ = _))

/-- All that are not null are of one kind. -/
def OneKind (vs : List Value) : Prop :=
  ∀ v ∈ vs, ∀ w ∈ vs, v.isNull = false → w.isNull = false → v.SameKind w

instance (vs : List Value) : Decidable (OneKind vs) := inferInstanceAs (Decidable (∀ v ∈ vs, ∀ w ∈ vs, _))

theorem eq_null_of_isNull {v : Value} (h : v.isNull = true) : v = .null := by
  cases v with
  | null => rfl
  | _ => cases h

theorem coerced?_congr (v : Value) {w w' : Value} (h : w.SameKind w') :
    v.coerced? w = v.coerced? w' := by
  cases w <;> cases w' <;> first | cases h; done | skip
  all_goals
    cases v with
    | json j => cases j <;> rfl
    | _ => rfl

theorem coerceLike_congr (v : Value) {w w' : Value} (h : w.SameKind w') :
    v.coerceLike w = v.coerceLike w' := by
  rw [coerceLike, coerceLike, coerced?_congr v h]

theorem coerced?_of_sameKind {v w : Value} (h : v.SameKind w) : v.coerced? w = none := by
  cases v with
  | json i => cases i <;> cases w <;> first | cases h; done | rfl
  | _ => cases w <;> first | cases h; done | rfl

theorem coerceLike_of_sameKind {v w : Value} (h : v.SameKind w) : v.coerceLike w = v := by
  rw [coerceLike, coerced?_of_sameKind h, Option.getD_none]

section

variable {u v w : Value}

theorem coerced?_json {j : Json} (h : (json j).coerced? w = some u) :
    ∃ s t, j = .string s ∧ w = .string t ∧ u = .string s := by
  cases j with
  | string s =>
    cases w with
    | string t => exact ⟨s, t, rfl, rfl, (Option.some.inj h).symm⟩
    | _ => cases h
  | _ => cases w <;> cases h

theorem SameKind.of_some (h : some v = some u) (hv : v.SameKind w) : u.SameKind w := Option.some.inj h ▸ hv

theorem SameKind.of_map {α : Type} {read? : Option α} {f : α → Value} (h : f <$> read? = some u)
    (hf : ∀ a, (f a).SameKind w) : u.SameKind w := by
  obtain ⟨a, -, rfl⟩ := Option.map_eq_some_iff.1 h
  exact hf a

theorem sameKind_of_coerced? (h : v.coerced? w = some u) : u.SameKind w ∨ ∃ n d, w = .int n ∧ u = .decimal d := by
  cases v with
  | null => cases h
  | json j =>
    obtain ⟨s, t, -, rfl, rfl⟩ := coerced?_json h
    exact .inl rfl
  | string s =>
    cases w with
    | int n =>
      obtain ⟨d, -, rfl⟩ := Option.map_eq_some_iff.1 h
      exact .inr ⟨n, d, rfl, rfl⟩
    | decimal | float | boolean | uuid | date | timestamp | localTimestamp =>
      exact .inl (.of_map h fun _ ↦ rfl)
    | json j => exact .inl (.of_some h rfl)
    | _ => cases h
  | float x =>
    cases w with
    | int n =>
      obtain ⟨d, -, rfl⟩ := Option.map_eq_some_iff.1 h
      exact .inr ⟨n, d, rfl, rfl⟩
    | decimal d => exact .inl (.of_map h fun _ ↦ rfl)
    | json j => exact .inl (.of_some h rfl)
    | _ => cases h
  | int | decimal =>
    cases w with
    | float | json => exact .inl (.of_some h rfl)
    | _ => cases h
  | timestamp t =>
    cases w with
    | localTimestamp | json => exact .inl (.of_some h rfl)
    | _ => cases h
  | localTimestamp t =>
    cases w with
    | timestamp | json => exact .inl (.of_some h rfl)
    | _ => cases h
  | boolean | uuid | bytes | date | strings | hstore =>
    cases w with
    | json j => exact .inl (.of_some h rfl)
    | _ => cases h

theorem coerced?_of_coerced? (h : v.coerced? w = some u) : u.coerced? w = none := by
  obtain hk | ⟨n, d, rfl, rfl⟩ := sameKind_of_coerced? h
  · exact coerced?_of_sameKind hk
  · rfl

end

theorem coerceLike_coerceLike (v w : Value) : (v.coerceLike w).coerceLike w = v.coerceLike w := by
  cases h : v.coerced? w with
  | none =>
    have hv : v.coerceLike w = v := by rw [coerceLike, h, Option.getD_none]
    rw [hv, hv]
  | some u =>
    have hu : v.coerceLike w = u := by rw [coerceLike, h, Option.getD_some]
    rw [hu, coerceLike, coerced?_of_coerced? h, Option.getD_none]

/-- Any value of the kind that was returned tells how a value is read. One of that kind, or null, stays as it is, and
nothing is read twice. -/
theorem read_by_kind (v w w' : Value) :
    (w.SameKind w' → v.coerceLike w = v.coerceLike w') ∧
    (v.SameKind w ∨ v = null → v.coerceLike w = v) ∧
    (v.coerceLike w).coerceLike w = v.coerceLike w := by
  refine ⟨coerceLike_congr v, ?_, coerceLike_coerceLike v w⟩
  intro h
  obtain h | rfl := h
  · exact coerceLike_of_sameKind h
  · rfl

theorem read_by_kind_text :
    (string "42").coerceLike (int 7) = (string "42").coerceLike (int 8) ∧
    (string "42").coerceLike (string "7") = string "42" ∧
    ((string "42").coerceLike (int 7)).coerceLike (int 7) = (string "42").coerceLike (int 7) :=
  ⟨(read_by_kind (string "42") (int 7) (int 8)).1 rfl,
    (read_by_kind (string "42") (string "7") null).2.1 (.inl rfl),
    (read_by_kind (string "42") (int 7) (int 8)).2.2⟩

end Upsert.Value
