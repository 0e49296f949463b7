import Upsert.Proofs.Value.Equality
import Upsert.Value.Text

namespace Upsert

variable {n : Int}

def IsSigned (n : Int) : Prop := Int64.minValue.toInt ≤ n ∧ n ≤ Int64.maxValue.toInt

instance : Decidable (IsSigned n) := inferInstanceAs (Decidable (_ ∧ _))

theorem JsonNumber.toInt64?_of_isSigned (h : IsSigned n) : (int n).toInt64? = some (Int64.ofInt n) := if_pos h

theorem JsonNumber.toInt64?_of_not_isSigned (h : ¬ IsSigned n) : (int n).toInt64? = none := if_neg h

theorem Json.int64_ofInt (h : IsSigned n) : int64 (Int64.ofInt n) = .number (.int n) := by
  rw [int64, Int64.toInt_ofInt_of_le h.1 (Int.lt_add_one_iff.2 h.2)]

theorem Value.toJson_float_plain_ne (x : Binary64) (n : Int) : (float x).toJson.plain ≠ .number (.int n) := by
  by_cases h : x.isFinite <;> simp [toJson, JsonNumber.ofFloat?, h, Json.plain, JsonNumber.plain]

theorem eq_map_of_mapM {α β : Type} {read : α → Option β} {write : β → α}
    (h : ∀ x y, read x = some y → x = write y) {xs : List α} {ys : List β} (hr : xs.mapM read = some ys) :
    xs = ys.map write := by
  induction xs generalizing ys with
  | nil =>
    cases hr
    rfl
  | cons x xs ih =>
    rw [List.mapM_cons] at hr
    obtain ⟨y, hy, hr⟩ := Option.bind_eq_some_iff.1 hr
    obtain ⟨ys, hys, hr⟩ := Option.bind_eq_some_iff.1 hr
    cases hr
    rw [List.map_cons, ← h x y hy, ← ih hys]

theorem Value.toJson_ofJson_array (items : List Json) : (ofJson (.array items)).toJson = .array items := by
  rw [ofJson]
  split
  next texts hr =>
    refine congrArg Json.array (eq_map_of_mapM (fun x s hs ↦ ?_) hr).symm
    split at hs
    next => rw [Option.some.inj hs]
    next => cases hs
  next => rfl

/-- A whole number that stands for itself is one that 64 bits with a sign hold. -/
def Json.IsSigned (j : Json) : Prop := ∀ n, j = .number (.int n) → Upsert.IsSigned n

namespace Value

variable {j : Json}

theorem toJson_ofJson (h : j.IsSigned) : (ofJson j).toJson = j := by
  cases j with
  | number m =>
    cases m with
    | int n =>
      have hn : IsSigned n := h n rfl
      rw [ofJson, JsonNumber.toInt64?_of_isSigned hn]
      exact Json.int64_ofInt hn
    | float x hx =>
      show (JsonNumber.ofFloat? x).elim Json.null Json.number = _
      rw [JsonNumber.ofFloat?, dif_pos hx]
      rfl
  | array items => exact toJson_ofJson_array items
  | _ => rfl

theorem ofJson_of_not_isSigned (h : ¬ IsSigned n) : ofJson (.number (.int n)) = .float (.ofInt n) := by
  rw [ofJson, JsonNumber.toInt64?_of_not_isSigned h]
  rfl

theorem isSigned_of_beq (h : (ofJson j).toJson.eq j) : j.IsSigned := by
  rintro n rfl
  refine Decidable.byContradiction fun hn ↦ ?_
  rw [ofJson_of_not_isSigned hn, Json.eq_iff] at h
  exact toJson_float_plain_ne _ n h

/-- A document is written as it was read, or as one equal to it, if and only if it is no whole number beyond 64 bits
with a sign. -/
theorem document_kept_iff (j : Json) :
    ((ofJson j).toJson = j ↔ j.IsSigned) ∧ ((ofJson j).toJson.eq j ↔ j.IsSigned) := by
  have heq (h : (ofJson j).toJson = j) : (ofJson j).toJson.eq j := by
    rw [h, Json.eq_iff]
  exact ⟨⟨fun h ↦ isSigned_of_beq (heq h), toJson_ofJson⟩, isSigned_of_beq, fun h ↦ heq (toJson_ofJson h)⟩

theorem document_not_kept_unsigned :
    let j : Json := .number (.int 18446744073709551615)
    ofJson j = .float ⟨0x43f0000000000000⟩ ∧ ¬ (ofJson j).toJson.eq j := by
  intro j
  have hn : ¬ IsSigned 18446744073709551615 := by decide
  have hx : Binary64.ofInt 18446744073709551615 = ⟨0x43f0000000000000⟩ := by decide +kernel
  exact ⟨(ofJson_of_not_isSigned hn).trans (congrArg float hx), fun h ↦ hn ((document_kept_iff j).2.1 h _ rfl)⟩

end Value

end Upsert
