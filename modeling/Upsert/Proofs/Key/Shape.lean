import Upsert.Engine.Key
import Upsert.Proofs.Value.Kind

namespace Upsert

namespace KeySource

abbrev returnedValues (s : KeySource) (rows : List Row) : List Value := rows.map fun row ↦ s.returnedValue row

abbrev sentValues (s : KeySource) (rows : List Row) : List Value := rows.map fun row ↦ s.sentValue row

/-- The value stands in a row at a place of the key, and only null stands there in the rows before. -/
def FirstReturned (s : KeySource) (rows : List Row) (v : Value) : Prop :=
  ∃ before row behind, rows = before ++ row :: behind ∧ s.returnedValue row = v ∧ v.isNull = false ∧
    ∀ earlier ∈ before, (s.returnedValue earlier).isNull = true

end KeySource

namespace KeyShape

def first? (vs : List Value) : Option Value := vs.find? fun v ↦ !v.isNull

theorem first?_eq_none {vs : List Value} : first? vs = none ↔ ∀ v ∈ vs, v.isNull = true := by
  simp [first?]

theorem of_first?_eq_some {vs : List Value} {v : Value} (h : first? vs = some v) :
    v ∈ vs ∧ v.isNull = false :=
  ⟨List.mem_of_find?_eq_some h, by simpa using List.find?_some h⟩

theorem getElem?_fill {shape : KeyShape} {vs : List Value} (h : shape.length = vs.length) (p : Nat) :
    (fill shape vs)[p]? = shape[p]?.map fun slot ↦ slot.or (vs[p]?.filter fun v ↦ !v.isNull) := by
  induction shape generalizing vs p with
  | nil => simp [fill, List.eq_nil_of_length_eq_zero h.symm]
  | cons slot slots ih =>
    cases vs with
    | nil => simp at h
    | cons v vs =>
      have ih := ih (Nat.succ.inj h)
      cases slot with
      | some s => cases p <;> simp [fill, ih]
      | none =>
        cases p with
        | zero => cases hv : v.isNull <;> simp [fill, Option.filter_some, hv]
        | succ p => simp [fill, ih]

theorem length_fill {shape : KeyShape} {vs : List Value} (h : shape.length = vs.length) :
    (fill shape vs).length = shape.length := by
  induction shape generalizing vs with
  | nil => simp [fill, List.eq_nil_of_length_eq_zero h.symm]
  | cons slot slots ih =>
    cases vs with
    | nil => simp at h
    | cons v vs => cases slot <;> simp [fill, ih (Nat.succ.inj h)]

variable (sources : List KeySource)

/-- Stopping at a full shape changes nothing: a full slot is never filled again. -/
theorem getElem?_sample {shape : KeyShape} (h : shape.length = sources.length) (rows : List Row) (p : Nat) :
    (sample sources shape rows)[p]? = shape[p]?.map fun slot ↦
      slot.or (sources[p]?.bind fun s ↦ first? (s.returnedValues rows)) := by
  induction rows generalizing shape with
  | nil => cases sources[p]? <;> simp [sample, first?]
  | cons row rows ih =>
    rw [sample]
    split
    · rename_i hf
      cases hp : shape[p]? with
      | none => rfl
      | some slot =>
        obtain ⟨v, rfl⟩ : ∃ v, slot = some v :=
          Option.isSome_iff_exists.1 (List.all_eq_true.1 hf _ (List.mem_of_getElem? hp))
        rfl
    · have hl : shape.length = (sources.map (KeySource.returnedValue row)).length := by simpa using h
      rw [ih ((length_fill hl).trans h), getElem?_fill hl]
      cases hp : shape[p]? with
      | none => rfl
      | some slot =>
        have hs : p < sources.length := h ▸ (List.getElem?_eq_some_iff.1 hp).1
        cases hv : (sources[p].returnedValue row).isNull <;>
          cases slot <;> simp [first?, Option.filter_some, hs, hv]

theorem at?_ofReturned (rows : List Row) (p : Nat) :
    (ofReturned sources rows).at? p = sources[p]?.bind fun s ↦ first? (s.returnedValues rows) := by
  rw [at?, ofReturned, getElem?_sample sources (List.length_map _), List.getElem?_map]
  cases sources[p]? <;> rfl

theorem first?_returnedValues_eq_some_iff {s : KeySource} {rows : List Row} {v : Value} :
    first? (s.returnedValues rows) = some v ↔ s.FirstReturned rows v := by
  rw [first?, List.find?_eq_some_iff_append]
  constructor
  · intro ⟨hv, before, behind, hrows, hbefore⟩
    obtain ⟨rows₁, rows₂, rfl, rfl, hr⟩ := List.map_eq_append_iff.1 hrows
    obtain ⟨row, rows₂, rfl, rfl, rfl⟩ := List.map_eq_cons_iff.1 hr
    refine ⟨rows₁, row, rows₂, rfl, rfl, by simpa using hv, ?_⟩
    intro earlier he
    simpa using hbefore _ (List.mem_map_of_mem he)
  · intro ⟨before, row, behind, hrows, hrow, hv, hbefore⟩
    subst hrows hrow
    refine ⟨by simpa using hv, s.returnedValues before, s.returnedValues behind, List.map_append, ?_⟩
    intro w hw
    obtain ⟨earlier, he, rfl⟩ := List.mem_map.1 hw
    simpa using hbefore earlier he

/-- Although no row is looked at once the shape is full, it holds what a search of all rows finds: at each place of the
key the first value other than null, and none if there is no such value or no such place. -/
theorem ofReturned_first (rows : List Row) :
    (∀ (p : Fin sources.length) (v : Value),
      (ofReturned sources rows).at? p = some v ↔ (sources.get p).FirstReturned rows v) ∧
    (∀ p : Fin sources.length,
      (ofReturned sources rows).at? p = none ↔ ∀ row ∈ rows, ((sources.get p).returnedValue row).isNull = true) ∧
    ∀ p ≥ sources.length, (ofReturned sources rows).at? p = none := by
  have hat (p : Fin sources.length) :
      (ofReturned sources rows).at? p = first? ((sources.get p).returnedValues rows) := by
    rw [at?_ofReturned, List.getElem?_eq_getElem p.isLt]
    rfl
  refine ⟨?_, ?_, ?_⟩
  · intro p v
    rw [hat, first?_returnedValues_eq_some_iff]
  · intro p
    rw [hat, first?_eq_none, List.forall_mem_map]
  · intro p hp
    rw [at?_ofReturned, List.getElem?_eq_none hp]
    rfl

theorem ofReturned_first_null :
    let null : Row := ⟨[⟨"k", .null⟩]⟩
    let seven : Row := ⟨[⟨"k", .int 7⟩]⟩
    (ofReturned [.column "k"] [null, seven, null]).at? 0 = some (.int 7) := by
  intro null seven
  have hnull : ((KeySource.column "k").returnedValue null).isNull = true := rfl
  have hfirst : (KeySource.column "k").FirstReturned [null, seven, null] (.int 7) :=
    ⟨[null], seven, [null], rfl, rfl, rfl, List.forall_mem_singleton.2 hnull⟩
  exact ((ofReturned_first [.column "k"] [null, seven, null]).1 ⟨0, Nat.zero_lt_one⟩ (.int 7)).2 hfirst

end KeyShape

namespace KeySource

variable (s : KeySource) (returned : List Row) (row : Row)

/-- The component in a row that is sent, read as what was returned. -/
def readValue : Value := Key.shaped (KeyShape.first? (s.returnedValues returned)) (s.sentValue row)

/-- The component is of another kind than what was returned. -/
def Foreign : Prop := ∃ w ∈ KeyShape.first? (s.returnedValues returned),
  (s.sentValue row).isNull = false ∧ ¬(s.sentValue row).SameKind w

variable {s returned row}

theorem readValue_of_not_foreign (h : ¬s.Foreign returned row) :
    s.readValue returned row = (s.sentValue row).canonical := by
  rw [readValue]
  cases hs : KeyShape.first? (s.returnedValues returned) with
  | none => rfl
  | some w =>
    cases hn : (s.sentValue row).isNull with
    | true =>
      rw [Value.eq_null_of_isNull hn]
      rfl
    | false =>
      have hk : (s.sentValue row).SameKind w := Decidable.byContradiction fun hk ↦ h ⟨w, hs, hn, hk⟩
      rw [Key.shaped, Option.elim_some, Value.coerceLike_of_sameKind hk]

end KeySource

namespace Key

variable (sources : List KeySource)

theorem ofInput_eq (row : Row) :
    ofInput sources row = sources.map fun s ↦ (s.sentValue row).canonical := by
  apply List.ext_getElem?
  intro p
  cases hp : sources[p]? <;> simp [ofInput, ofSent, KeyShape.at?, shaped, hp]

theorem ofSent_eq (returned : List Row) (row : Row) :
    ofSent sources (KeyShape.ofReturned sources returned) row =
      sources.map fun s ↦ s.readValue returned row := by
  apply List.ext_getElem?
  intro p
  cases hp : sources[p]? <;> simp [ofSent, KeyShape.at?_ofReturned, KeySource.readValue, hp]

end Key

end Upsert
