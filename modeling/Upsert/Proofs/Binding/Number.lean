import Upsert.Proofs.Number.Reading
import Upsert.Proofs.Wire.Encode
import Upsert.Proofs.Wire.Numeric

namespace Upsert

namespace Value

def number? : Value → Option ℚ
  | .int n => some n.toInt
  | .float x => if x.isFinite then some x.decimal.value else none
  | .decimal d => some d.value
  | .string s => (Decimal.read? (Text.trim s)).map Decimal.value
  | _ => none

/-- The digits of the text by which a value is sent to a column of decimals leave room to read on to an exponent, or there
is no exponent that would change the number. -/
def ReadOut (q : ℚ) : Value → Prop
  | .decimal d => d.digits.natAbs < Numeric.limit ∨ d.scale ≤ d.digitCount + 5
  | .string s => Numeric.Roomy (Text.trim s) ∨ Decimal.base? (Text.trim s) = some q
  | _ => True

/-- The column can hold the number that the value denotes, and the value is read to its end. -/
def Sendable (t : ColumnType) (v : Value) : Prop :=
  ∃ q, v.number? = some q ∧ if t = .base .numeric then Numeric.Held q ∧ v.ReadOut q else Decimal.IsWhole q

variable {t : ColumnType} {v : Value} {os : Octets} {n : Int64} {m : Numeric} {s : String} {q : ℚ}

theorem decodeInt_ofInt {width : ℕ} (hl : -(pow2 (8 * width) : ℤ) ≤ 2 * n.toInt) (hh : 2 * n.toInt < pow2 (8 * width)) :
    decodeInt width (Octets.ofInt width n.toInt) = .ok n := by
  have ht := takeInt_ofInt_nil _ _ hl hh
  rw [decodeInt, ht, Except.ok_bind, drained, Except.ok_bind, Int64.ofInt_toInt]
  rfl

theorem decodeInt_of_encodeNarrow {width : ℕ} (h : encodeNarrow width n.toInt = .ok os) : decodeInt width os = .ok n := by
  rw [encodeNarrow] at h
  split at h
  · cases h
  · split at h
    · cases h
    · cases h
      exact decodeInt_ofInt (by omega) (by omega)

theorem decode_of_encodeInt (ht : t = .base .int2 ∨ t = .base .int4 ∨ t = .base .int8) (h : encodeInt t n = .ok os) :
    decode t (some os) = .ok (.int n) := by
  have hd : ∀ {width}, decodeInt width os = .ok n → Value.int <$> decodeInt width os = .ok (.int n) := by
    intro width h
    rw [h]
    rfl
  obtain rfl | rfl | rfl := ht
  · exact hd (decodeInt_of_encodeNarrow h)
  · exact hd (decodeInt_of_encodeNarrow h)
  · cases h
    have hl := n.le_toInt
    have hh := n.toInt_lt
    have hp : (pow2 (8 * 8) : ℤ) = 18446744073709551616 := by decide
    exact hd (decodeInt_ofInt (by omega) (by omega))

theorem exists_int64 (ht : t = .base .int2 ∨ t = .base .int4 ∨ t = .base .int8) (h : encode t v = .ok (some os)) :
    ∃ n : Int64, encodeInt t n = .ok os ∧
      (v.number? = some (n.toInt : ℚ) ∨ ∃ d, v = .decimal d ∧ d.toInt64? = some n) := by
  have hmap : t.isHstore = false := by
    obtain rfl | rfl | rfl := ht <;> exact ColumnType.isHstore_base (by simp [BaseType.typeName])
  cases v with
  | int n =>
    refine ⟨n, ?_, .inl rfl⟩
    obtain rfl | rfl | rfl := ht <;>
    · replace h := Except.map_some_eq_ok_iff.1 h
      exact h
  | decimal d =>
    obtain ⟨n, hn, h⟩ : ∃ n, d.toInt64? = some n ∧ encodeInt t n = .ok os := by
      replace h := Except.map_some_eq_ok_iff.1 h
      obtain rfl | rfl | rfl := ht <;>
      · simp only [encodeDecimal] at h
        split at h
        · next n hn => exact ⟨n, hn, h⟩
        · cases h
    exact ⟨n, h, .inr ⟨d, rfl, hn⟩⟩
  | string s =>
    obtain ⟨n, hn, h⟩ : ∃ n, Text.readInt64 (Text.trim s) = .ok n ∧ encodeInt t n = .ok os := by
      replace h := Except.map_some_eq_ok_iff.1 h
      obtain rfl | rfl | rfl := ht <;>
      · obtain ⟨n, hn, h⟩ := Except.bind_eq_ok_iff.1 h
        exact ⟨n, Except.mapError_eq_ok_iff.1 hn, h⟩
    refine ⟨n, h, .inl ?_⟩
    obtain ⟨negative, ds, hs⟩ : ∃ negative ds, Text.splitSign (Text.trim s).toList = (negative, ds) := ⟨_, _, rfl⟩
    obtain ⟨hne, hds, hv⟩ := Text.readInt64_eq_ok hs hn
    rw [number?, Decimal.read?_of_isDigit hs hne hds, Option.map_some, Decimal.value_whole, hv]
  | json j => obtain rfl | rfl | rfl := ht <;> exact absurd h (encode_json_ne_ok rfl rfl hmap)
  | hstore m => exact absurd h (encode_hstore_ne_ok hmap)
  | _ => obtain rfl | rfl | rfl := ht <;> cases h

theorem exists_encodeInt (ht : t = .base .int2 ∨ t = .base .int4 ∨ t = .base .int8) (h : encode t v = .ok (some os)) :
    ∃ n : Int64, encodeInt t n = .ok os ∧
      (v.number? = some (n.toInt : ℚ) ↔ ∃ q, v.number? = some q ∧ Decimal.IsWhole q) := by
  obtain ⟨n, he, hn⟩ := exists_int64 ht h
  refine ⟨n, he, ?_⟩
  obtain hn | ⟨d, rfl, hn⟩ := hn
  · exact ⟨fun _ ↦ ⟨_, hn, _, rfl⟩, fun _ ↦ hn⟩
  · simp only [number?, Option.some_inj, exists_eq_left', ← Decimal.toInt64?_eq_value_iff hn]
    exact eq_comm

theorem read?_number_iff (hread : Numeric.read? s = some m)
    (hs : ∀ q, v.number? = some q → ∃ digits places exponent, Decimal.Spells s digits places exponent ∧
      Decimal.value ⟨digits, places - exponent⟩ = q)
    (hr : ∀ q, v.number? = some q → Numeric.Held q →
      (Numeric.Roomy s ∨ Decimal.base? s = some q ↔ v.ReadOut q)) :
    v.number? = some m.toDecimal.value ↔ v.Sendable (.base .numeric) := by
  have hiff : ∀ q, v.number? = some q → (m.toDecimal.value = q ↔ Numeric.Held q ∧ v.ReadOut q) := by
    intro q hq
    obtain ⟨digits, places, exponent, hspells, rfl⟩ := hs q hq
    rw [Numeric.read?_value_iff hspells hread]
    exact and_congr_right (hr _ hq)
  rw [Sendable]
  simp only [if_true]
  constructor
  · intro hn
    exact ⟨_, hn, (hiff _ hn).1 rfl⟩
  · rintro ⟨q, hn, hq⟩
    rw [hn, (hiff q hn).2 hq]

theorem exists_read? (h : (readNumeric s >>= encodeNumeric (.base .numeric)) = .ok os) :
    ∃ m, Numeric.read? s = some m ∧ m.encode = os := by
  obtain ⟨m, hm, h⟩ := Except.bind_eq_ok_iff.1 h
  obtain ⟨m', hread, hm⟩ := Except.elim_eq_ok_iff.1 hm
  cases hm
  cases h
  exact ⟨m, hread, rfl⟩

theorem exists_encodeNumeric (h : encode (.base .numeric) v = .ok (some os)) :
    ∃ m : Numeric, m.encode = os ∧ (v.number? = some m.toDecimal.value ↔ v.Sendable (.base .numeric)) := by
  have hmap : (ColumnType.base .numeric).isHstore = false := ColumnType.isHstore_base (by simp [BaseType.typeName])
  cases v with
  | int n =>
    cases h
    have hv : (Numeric.ofInt64 n).toDecimal.value = n.toInt := Decimal.value_whole n.toInt
    refine ⟨_, rfl, ?_⟩
    rw [hv]
    exact ⟨fun _ ↦ ⟨_, rfl, ⟨_, hv⟩, trivial⟩, fun _ ↦ rfl⟩
  | float x =>
    replace h := Except.map_some_eq_ok_iff.1 h
    have hf : (if x.isFinite then readNumeric x.text >>= encodeNumeric (.base .numeric) else .error .notFinite) = .ok os := h
    split at hf
    · next hx =>
      obtain ⟨m, hread, he⟩ := exists_read? hf
      obtain ⟨digits, places, hs, hv⟩ := Binary64.spells_text hx
      have hnum : (Value.float x).number? = some x.decimal.value := if_pos hx
      refine ⟨m, he, read?_number_iff hread (fun q hq ↦ ?_) fun q hq _ ↦ ?_⟩
      · rw [hnum] at hq
        exact ⟨digits, places, 0, hs, by rw [sub_zero, hv, Option.some_inj.1 hq]⟩
      · rw [hs.base?, hv, ← hnum]
        exact ⟨fun _ ↦ trivial, fun _ ↦ .inr hq⟩
    · cases hf
  | decimal d =>
    replace h := Except.map_some_eq_ok_iff.1 h
    obtain ⟨m, hread, he⟩ := exists_read? (s := d.text) h
    refine ⟨m, he, read?_number_iff hread (fun q hq ↦ ?_) fun q hq hh ↦ ?_⟩
    · cases hq
      exact d.exists_spells_text
    · cases hq
      exact Numeric.text_read_iff hh
  | string s =>
    replace h := Except.map_some_eq_ok_iff.1 h
    obtain ⟨m, hread, he⟩ := exists_read? (s := Text.trim s) h
    refine ⟨m, he, read?_number_iff hread (fun q hq ↦ ?_) fun q _ _ ↦ Iff.rfl⟩
    obtain ⟨d, hd, rfl⟩ := Option.map_eq_some_iff.1 hq
    obtain ⟨digits, places, exponent, hs, rfl⟩ := Decimal.exists_spells_of_read? hd
    exact ⟨digits, places, exponent, hs, rfl⟩
  | json j => exact absurd h (encode_json_ne_ok rfl rfl hmap)
  | hstore m => exact absurd h (encode_hstore_ne_ok hmap)
  | _ => cases h

end Value

open Value

/-- What a column of numbers returns for a value is the number that the value denotes if the column can hold it, and if
its text can be read to the end, and only then. -/
theorem number_bound_iff {t : ColumnType} {v : Value} {os : Octets}
    (ht : t = .base .int2 ∨ t = .base .int4 ∨ t = .base .int8 ∨ t = .base .numeric) (h : encode t v = .ok (some os)) :
    ∃ r q, decode t (some os) = .ok r ∧ r.number? = some q ∧ (v.number? = some q ↔ v.Sendable t) := by
  have hwhole : (t = .base .int2 ∨ t = .base .int4 ∨ t = .base .int8) ∨ t = .base .numeric := by
    rwa [or_assoc, or_assoc]
  obtain ht | rfl := hwhole
  · obtain ⟨n, he, hn⟩ := exists_encodeInt ht h
    have hne : t ≠ .base .numeric := by obtain rfl | rfl | rfl := ht <;> decide
    refine ⟨.int n, n.toInt, decode_of_encodeInt ht he, rfl, ?_⟩
    rw [hn, Sendable]
    simp only [if_neg hne]
  · obtain ⟨m, rfl, hm⟩ := exists_encodeNumeric h
    obtain ⟨d, hd, hv⟩ := exists_decodeNumeric m
    refine ⟨.decimal d, m.toDecimal.value, ?_, by rw [number?, hv], hm⟩
    have hdec : decode (.base .numeric) (some m.encode) = Value.decimal <$> decodeNumeric m.encode := rfl
    rw [hdec, hd]
    rfl

theorem not_number_bound_fraction :
    encode (.base .int4) (.decimal ⟨15, 1⟩) = .ok (some [0, 0, 0, 1]) ∧
      decode (.base .int4) (some [0, 0, 0, 1]) = .ok (.int 1) ∧
      (Value.decimal ⟨15, 1⟩).number? ≠ (Value.int 1).number? := by
  have he : encode (.base .int4) (.decimal ⟨15, 1⟩) = .ok (some [0, 0, 0, 1]) := by decide
  have hd : decode (.base .int4) (some [0, 0, 0, 1]) = .ok (.int 1) :=
    decode_of_encodeInt (.inr (.inl rfl)) (by decide)
  refine ⟨he, hd, fun hn ↦ ?_⟩
  obtain ⟨r, q, hr, hq, hiff⟩ := number_bound_iff (.inr (.inl rfl)) he
  rw [hd] at hr
  cases hr
  obtain ⟨_, hv, n, rfl⟩ := hiff.1 (hn.trans hq)
  have hn := (Decimal.value_ofNat_eq_iff 1).1 (Option.some_inj.1 hv)
  omega

end Upsert
