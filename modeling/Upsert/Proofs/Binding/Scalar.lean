import Upsert.Proofs.Binding.Found
import Upsert.Proofs.Binding.Number
import Upsert.Proofs.Value.Canonical

namespace Upsert

namespace ColumnType

def IsWhole (t : ColumnType) : Prop := t = .base .int2 ∨ t = .base .int4 ∨ t = .base .int8

def IsScalar (t : ColumnType) : Prop :=
  t = .base .bool ∨ t = .base .uuid ∨ t = .base .date ∨ t.IsWhole ∨ t = .base .float8

end ColumnType

namespace Value

def double? : Value → Option Binary64
  | .int n => some (.ofInt n.toInt)
  | .float x => some x
  | .decimal d => some d.toBinary64
  | .string s => (Binary64.read (Text.trim s)).toOption
  | _ => none

variable {t : ColumnType} {v r : Value} {os : Octets}

theorem found_of_read (h : v.coerceLike r = r) : (v.coerceLike r).canonical == r.canonical := by
  rw [h]
  exact BEq.rfl

theorem boolean_read (h : encode (.base .bool) v = .ok (some os)) :
    ∃ b, decode (.base .bool) (some os) = .ok (.boolean b) ∧ v.coerceLike (.boolean b) = .boolean b := by
  have hd (b : Bool) : decode (.base .bool) (some [if b then 1 else 0]) = .ok (.boolean b) := by
    cases b <;> rfl
  cases v with
  | boolean b =>
    cases h
    exact ⟨b, hd b, rfl⟩
  | string s =>
    replace h := Except.map_some_eq_ok_iff.1 h
    simp only [encodeString] at h
    obtain ⟨b, hb, ho⟩ := Except.elim_eq_ok_iff.1 h
    cases ho
    refine ⟨b, hd b, ?_⟩
    rw [coerceLike, coerced?, hb]
    rfl
  | decimal d => exact absurd h (encode_decimal_ne_ok (.inl rfl))
  | _ => cases h

theorem uuid_read (h : encode (.base .uuid) v = .ok (some os)) :
    ∃ u, decode (.base .uuid) (some os) = .ok (.uuid u) ∧ v.coerceLike (.uuid u) = .uuid u := by
  have hd (u : Uuid) : decode (.base .uuid) (some u.octets) = .ok (.uuid u) := by
    have hu : Uuid.ofOctets? u.octets = some u := dif_pos u.length_eq
    rw [decode, decodeOctets, decodeUuid, hu]
    rfl
  cases v with
  | uuid u =>
    cases h
    exact ⟨u, hd u, rfl⟩
  | string s =>
    replace h := Except.map_some_eq_ok_iff.1 h
    simp only [encodeString] at h
    obtain ⟨u, hu, ho⟩ := Except.elim_eq_ok_iff.1 h
    cases ho
    refine ⟨u, hd u, ?_⟩
    rw [coerceLike, coerced?, hu]
    rfl
  | decimal d => exact absurd h (encode_decimal_ne_ok (.inr (.inl rfl)))
  | _ => cases h

theorem decodeDate_encodeDate (d : Date) : decodeDate (encodeDate d) = .ok d := by
  have hl := d.min_le
  have hh := d.le_max
  simp only [Date.minDays, Date.maxDays] at hl hh
  have hp : (pow2 (8 * 4) : ℤ) = 4294967296 := by decide
  have ht := takeInt_ofInt_nil 4 (d.days - 10957) (by omega) (by omega)
  have hd : Date.ofDays? (d.days - 10957 + 10957) = some d := by
    rw [Int.sub_add_cancel]
    exact dif_pos ⟨d.min_le, d.le_max⟩
  rw [decodeDate, encodeDate, ht, Except.ok_bind, drained, Except.ok_bind, hd]
  rfl

theorem date_read (h : encode (.base .date) v = .ok (some os)) :
    ∃ d, decode (.base .date) (some os) = .ok (.date d) ∧ v.coerceLike (.date d) = .date d := by
  have hd (d : Date) : decode (.base .date) (some (encodeDate d)) = .ok (.date d) := by
    rw [decode, decodeOctets, decodeDate_encodeDate]
    rfl
  cases v with
  | date d =>
    cases h
    exact ⟨d, hd d, rfl⟩
  | string s =>
    replace h := Except.map_some_eq_ok_iff.1 h
    simp only [encodeString] at h
    obtain ⟨d, hs, ho⟩ := Except.elim_eq_ok_iff.1 h
    cases ho
    refine ⟨d, hd d, ?_⟩
    rw [coerceLike, coerced?, hs]
    rfl
  | decimal d => exact absurd h (encode_decimal_ne_ok (.inr (.inr (.inl rfl))))
  | _ => cases h

theorem coerceLike_double {x : Binary64} (h : v.double? = some x) (y : Binary64) :
    v.coerceLike (.float y) = .float x := by
  cases v with
  | int n | float x | decimal d =>
    cases h
    rfl
  | string s =>
    rw [double?] at h
    rw [coerceLike, coerced?, h]
    rfl
  | _ => cases h

theorem decodeFloat8_ofInt (x : Binary64) : decodeFloat8 (Octets.ofInt 8 x.bits.toNat) = .ok x := by
  have hx : x.bits.toNat < 2 ^ 64 := x.bits.toNat_lt
  have hp : (pow2 (8 * 8) : ℤ) = 2 ^ 64 := by decide
  have ht := takeNat_ofInt_nil 8 x.bits.toNat (by omega) (by omega)
  rw [decodeFloat8, ht, Except.ok_bind, drained, Except.ok_bind, Int.toNat_natCast, UInt64.ofNat_toNat]
  rfl

theorem exists_double (h : encode (.base .float8) v = .ok (some os)) :
    ∃ x, v.double? = some x ∧ os = Octets.ofInt 8 x.bits.toNat := by
  cases v with
  | int n | float x | decimal d =>
    cases h
    exact ⟨_, rfl, rfl⟩
  | string s =>
    obtain ⟨x, hx, ho⟩ := Except.bind_eq_ok_iff.1 (Except.map_some_eq_ok_iff.1 h)
    cases ho
    exact ⟨x, Except.toOption_eq_some_iff.2 (Except.mapError_eq_ok_iff.1 hx), rfl⟩
  | _ => cases h

theorem double_read (h : encode (.base .float8) v = .ok (some os)) :
    ∃ x, decode (.base .float8) (some os) = .ok (.float x) ∧ v.coerceLike (.float x) = .float x := by
  obtain ⟨x, hx, rfl⟩ := exists_double h
  refine ⟨x, ?_, coerceLike_double hx x⟩
  rw [decode, decodeOctets, decodeFloat8_ofInt]
  rfl

theorem canonical_decimal_beq_iff {d : Decimal} {n : Int64} :
    (Value.decimal d).canonical == (Value.int n).canonical ↔ d.value = n.toInt := by
  have hn : (Decimal.ofInt n.toInt).value = n.toInt := Decimal.value_whole _
  rw [← hn]
  exact canonical_beq_decimal_iff.trans Option.some_inj

theorem whole_found (ht : t.IsWhole) (hv : ∀ d, v = .decimal d → Decimal.IsWhole d.value)
    (h : encode t v = .ok (some os)) :
    ∃ n, decode t (some os) = .ok (.int n) ∧ (v.coerceLike (.int n)).canonical == (Value.int n).canonical := by
  obtain ⟨n, he, hn⟩ := exists_int64 ht h
  refine ⟨n, decode_of_encodeInt ht he, ?_⟩
  have hq : v.number? = some (n.toInt : ℚ) := by
    obtain hn | ⟨d, rfl, hd⟩ := hn
    · exact hn
    · rw [number?, (Decimal.toInt64?_eq_value_iff hd).2 (hv d rfl)]
  cases v with
  | int m =>
    have hm : m.toInt = n.toInt := Int.cast_injective (Option.some_inj.1 hq)
    obtain rfl := Int64.toInt_inj.1 hm
    exact BEq.rfl
  | float x => obtain rfl | rfl | rfl := ht <;> cases h
  | decimal d => exact canonical_decimal_beq_iff.2 (Option.some_inj.1 hq)
  | string s =>
    obtain ⟨d, hd, hq⟩ := Option.map_eq_some_iff.1 hq
    rw [coerceLike, coerced?, hd]
    exact canonical_decimal_beq_iff.2 hq
  | _ => cases hq

end Value

open Value Reconciliation

/-- A value that is sent to a column of scalars is found under what the column returns for it. A decimal that is sent to
one of whole numbers has to be whole. -/
theorem scalar_found {t : ColumnType} {v : Value} {os : Octets} (ht : t.IsScalar)
    (hv : t.IsWhole → ∀ d, v = .decimal d → Decimal.IsWhole d.value) (h : encode t v = .ok (some os)) :
    ∃ r, decode t (some os) = .ok r ∧ (v.coerceLike r).canonical == r.canonical ∧
      ∀ (source : KeySource) (row stored : Row) (returned : List Row),
        stored ∈ returned → OneKind (source.returnedValues returned) →
        source.sentValue row = v → source.returnedValue stored = r →
        returnedKey [source] stored = sentKey [source] returned row := by
  obtain ⟨r, hd, hf, hn, hj⟩ : ∃ r, decode t (some os) = .ok r ∧ (v.coerceLike r).canonical == r.canonical ∧
      r.isNull = false ∧ ∀ j, r ≠ .json j := by
    obtain rfl | rfl | rfl | ht | rfl := ht
    · obtain ⟨b, hd, hc⟩ := boolean_read h
      exact ⟨_, hd, found_of_read hc, rfl, nofun⟩
    · obtain ⟨u, hd, hc⟩ := uuid_read h
      exact ⟨_, hd, found_of_read hc, rfl, nofun⟩
    · obtain ⟨d, hd, hc⟩ := date_read h
      exact ⟨_, hd, found_of_read hc, rfl, nofun⟩
    · obtain ⟨n, hd, hf⟩ := whole_found ht (hv ht) h
      exact ⟨_, hd, hf, rfl, nofun⟩
    · obtain ⟨x, hd, hc⟩ := double_read h
      exact ⟨_, hd, found_of_read hc, rfl, nofun⟩
  refine ⟨r, hd, hf, ?_⟩
  intro source row stored returned hm hk hs hr
  subst hs hr
  exact (returnedKey_eq_sentKey_iff_found hm hn hj hk).2 hf

theorem scalar_found_spellings :
    let os : Octets := [0, 0, 0, 42]
    encode (.base .int4) (.string " +42 ") = .ok (some os) ∧ encode (.base .int4) (.decimal ⟨4200, 2⟩) = .ok (some os) ∧
      decode (.base .int4) (some os) = .ok (.int 42) ∧
      ((Value.string " +42 ").coerceLike (.int 42)).canonical == (Value.int 42).canonical ∧
      ((Value.decimal ⟨4200, 2⟩).coerceLike (.int 42)).canonical == (Value.int 42).canonical := by
  intro os
  have hs : encode (.base .int4) (.string " +42 ") = .ok (some os) := by decide
  have hd : encode (.base .int4) (.decimal ⟨4200, 2⟩) = .ok (some os) := by decide
  have hr : decode (.base .int4) (some os) = .ok (.int 42) := decode_of_encodeInt (.inr (.inl rfl)) (by decide)
  have ht : (ColumnType.base .int4).IsScalar := .inr (.inr (.inr (.inl (.inr (.inl rfl)))))
  have hw : Decimal.IsWhole (Decimal.value ⟨4200, 2⟩) := ⟨42, (Decimal.value_ofNat_eq_iff 2).2 (by norm_num)⟩
  obtain ⟨r, hrs, hfs, -⟩ := scalar_found ht (fun _ d hv ↦ by cases hv) hs
  obtain ⟨r', hrd, hfd, -⟩ := scalar_found ht (fun _ d hv ↦ by cases hv; exact hw) hd
  rw [hr] at hrs hrd
  cases hrs
  cases hrd
  exact ⟨hs, hd, hr, hfs, hfd⟩

end Upsert
