import Upsert.Proofs.Number.Spelling

namespace Upsert

theorem ShortDecimal.exists_stripped (fuel : ℕ) (d : ShortDecimal) (hz : d.digits ≠ 0) (hf : d.digits < 10 ^ fuel) :
    ∃ k : ℕ, d.digits = (stripped fuel d).digits * 10 ^ k ∧ (stripped fuel d).exponent = d.exponent + k ∧
      ¬10 ∣ (stripped fuel d).digits := by
  induction fuel generalizing d with
  | zero => omega
  | succ fuel ih =>
    rw [stripped]
    split_ifs with h
    · have hlt : d.digits / 10 < 10 ^ fuel := by
        rw [pow_succ] at hf
        omega
      obtain ⟨k, hk, he, hd⟩ := ih ⟨d.digits / 10, d.exponent + 1⟩ (by simp only; omega) hlt
      refine ⟨k + 1, ?_, ?_, hd⟩
      · simp only at hk
        rw [pow_succ, ← mul_assoc, ← hk]
        omega
      · rw [he]
        push_cast
        ring
    · exact ⟨0, by simp, by simp, by omega⟩

namespace Decimal

variable {c d : Decimal}

theorem normalized_of_digits_eq_zero (h : d.digits = 0) : d.normalized = ⟨0, 0⟩ := if_pos h

theorem exists_normalized (h : d.digits ≠ 0) :
    ∃ k : ℕ, d.digits = d.normalized.digits * 10 ^ k ∧ d.normalized.scale = d.scale - k ∧ ¬10 ∣ d.normalized.digits := by
  have hf : d.digits.natAbs < 10 ^ (d.digits.natAbs.log2 + 1) :=
    Nat.lt_log2_self.trans_le (Nat.pow_le_pow_left (by norm_num) _)
  obtain ⟨k, hk, he, hd⟩ := ShortDecimal.exists_stripped _ ⟨d.digits.natAbs, -d.scale⟩ (by simpa using h) hf
  simp only at hk he
  rw [normalized, if_neg h]
  generalize ShortDecimal.stripped _ _ = s at hk he hd
  refine ⟨k, ?_, ?_, fun hdvd ↦ hd ?_⟩
  · calc d.digits = d.digits.sign * d.digits.natAbs := (Int.sign_mul_natAbs _).symm
      _ = d.digits.sign * s.digits * 10 ^ k := by
        rw [hk]
        push_cast
        ring
  · show -s.exponent = d.scale - k
    rw [he]
    ring
  · have hn := Int.natAbs_dvd_natAbs.2 hdvd
    rwa [Int.natAbs_mul, Int.natAbs_sign_of_ne_zero h, one_mul, Int.natAbs_natCast] at hn

theorem normalized_value (d : Decimal) : d.normalized.value = d.value := by
  by_cases h : d.digits = 0
  · rw [normalized_of_digits_eq_zero h, value_eq_zero_iff.2 h]
    exact value_whole 0
  · obtain ⟨k, hd, hs, -⟩ := exists_normalized h
    calc d.normalized.value = value ⟨d.normalized.digits * 10 ^ k, d.normalized.scale + k⟩ := (value_mul_pow10 k).symm
      _ = d.value := by rw [← hd, hs, sub_add_cancel]

theorem digits_inj {digits digits' scale : ℤ} (h : value ⟨digits, scale⟩ = value ⟨digits', scale⟩) : digits = digits' := by
  have hp : (10 : ℚ) ^ (-scale) ≠ 0 := by positivity
  exact_mod_cast mul_right_cancel₀ hp h

theorem eq_of_value_eq (hc : ¬10 ∣ c.digits) (hd : ¬10 ∣ d.digits) (h : c.value = d.value) : c = d := by
  wlog hle : c.scale ≤ d.scale generalizing c d
  · exact (this hd hc h.symm (by omega)).symm
  obtain ⟨k, hk⟩ := Int.le.dest hle
  have hv : value ⟨c.digits * 10 ^ k, d.scale⟩ = value ⟨d.digits, d.scale⟩ := by
    rw [← hk, value_mul_pow10, hk]
    exact h
  have hdigits := digits_inj hv
  cases k with
  | zero =>
    cases c
    cases d
    simp_all
  | succ k =>
    rw [pow_succ, ← mul_assoc] at hdigits
    exact absurd ⟨_, hdigits.symm.trans (mul_comm _ _)⟩ hd

theorem numEq_iff_value_eq : c.numEq d ↔ c.value = d.value := by
  rw [numEq, beq_iff_eq]
  constructor
  · intro h
    rw [← normalized_value c, h, normalized_value]
  · intro h
    by_cases hc : c.digits = 0
    · have hd : d.digits = 0 := by rwa [← value_eq_zero_iff, ← h, value_eq_zero_iff]
      rw [normalized_of_digits_eq_zero hc, normalized_of_digits_eq_zero hd]
    · have hd : d.digits ≠ 0 := by rwa [Ne, ← value_eq_zero_iff, ← h, value_eq_zero_iff]
      obtain ⟨_, -, -, hcn⟩ := exists_normalized hc
      obtain ⟨_, -, -, hdn⟩ := exists_normalized hd
      exact eq_of_value_eq hcn hdn (by rw [normalized_value, normalized_value, h])

section

open Text

variable {s : String} {digits exponent : ℤ} {places : ℕ}

theorem read?_of_spells (h : Spells s digits places exponent)
    (he : -(pow2 127 : ℤ) ≤ exponent ∧ exponent ≤ pow2 127 - 1)
    (hs : Int64.minValue.toInt ≤ (places : ℤ) - exponent ∧ (places : ℤ) - exponent ≤ Int64.maxValue.toInt) :
    read? s = some ⟨digits, places - exponent⟩ := by
  have hguard : (guard (Int64.minValue.toInt ≤ (places : ℤ) - exponent ∧
      (places : ℤ) - exponent ≤ Int64.maxValue.toInt) : Option Unit) = some () := (Option.guard_eq_some' ()).2 hs
  obtain ⟨hb, hx⟩ := h
  rw [baseChars] at hb
  rw [exponentChars] at hx
  rw [read?]
  generalize s.toList.dropWhile (fun c ↦ !isExponentMark c) = cs at hx
  cases hx with
  | absent =>
    simp only [Option.bind_eq_bind, Option.bind_some, hb, hguard]
    rfl
  | @behind mark rest ds negative hsp hne hds =>
    have hr := readInteger_of_bounds (s := String.ofList rest) (by rw [String.toList_ofList, hsp]) hne hds
      (by decide) (by decide) he
    simp only [Option.bind_eq_bind, hr, Except.toOption, Option.bind_some, hb, hguard]
    rfl

end

theorem exists_read?_text (hl : Int64.minValue.toInt ≤ d.scale) (hh : d.scale ≤ Int64.maxValue.toInt) :
    ∃ d', read? d.text = some d' ∧ d'.numEq d := by
  have hmin : Int64.minValue.toInt = -9223372036854775808 := by decide
  have hmax : Int64.maxValue.toInt = 9223372036854775807 := by decide
  have hp : (pow2 127 : ℤ) = 170141183460469231731687303715884105728 := by decide
  rw [hmin] at hl
  rw [hmax] at hh
  by_cases hz : d.digits = 0
  · refine ⟨⟨0, 0⟩, read?_of_spells (d.spells_text_zero hz) (by omega) (by omega), numEq_iff_value_eq.2 ?_⟩
    rw [value_eq_zero_iff.2 hz]
    exact value_whole 0
  by_cases hs : (d.digitCount : ℤ) + 5 < d.scale
  · have hc := d.digitCount_pos
    have hr := read?_of_spells (d.spells_text_small hz hs) (by omega) (by omega)
    rw [show ((d.digitCount - 1 : ℕ) : ℤ) - (d.digitCount - 1 - d.scale) = d.scale by omega] at hr
    exact ⟨d, hr, numEq_iff_value_eq.2 rfl⟩
  by_cases hb : d.scale < -15
  · have hr := read?_of_spells (d.spells_text_large hz hs hb) (by omega) (by omega)
    rw [Nat.cast_zero, zero_sub, neg_neg] at hr
    exact ⟨d, hr, numEq_iff_value_eq.2 rfl⟩
  · obtain ⟨digits, h, hv⟩ := d.exists_spells_text_plain hz hs hb
    refine ⟨_, read?_of_spells h (by omega) (by omega), numEq_iff_value_eq.2 ?_⟩
    rw [sub_zero, hv]

end Decimal

end Upsert
