import Upsert.Proofs.Number.Pattern

namespace Upsert

open FloatFormat

namespace FloatFormat

theorem infinity_binary32 : binary32.infinity = 2139095040 := by decide

theorem infinity_binary64 : binary64.infinity = 9218868437227405312 := by decide

theorem hidden_binary32 : binary32.hidden = 8388608 := by decide

theorem hidden_binary64 : binary64.hidden = 4503599627370496 := by decide

theorem minExponent_binary32 : binary32.minExponent = -149 := by decide

theorem minExponent_binary64 : binary64.minExponent = -1074 := by decide

end FloatFormat

namespace Binary64

variable {magnitude : ℕ}

theorem toNat_bits_ofMagnitude (negative : Bool) (h : magnitude < 2 ^ 63) :
    (ofMagnitude negative magnitude).bits.toNat = magnitude + if negative then 2 ^ 63 else 0 := by
  have hp : pow2 63 = 2 ^ 63 := rfl
  rw [ofMagnitude, UInt64.toNat_ofNat', hp]
  apply Nat.mod_eq_of_lt
  split <;> omega

theorem magnitude_ofMagnitude (negative : Bool) (h : magnitude < 2 ^ 63) :
    (ofMagnitude negative magnitude).magnitude = magnitude := by
  have hp : pow2 63 = 2 ^ 63 := rfl
  rw [Binary64.magnitude, toNat_bits_ofMagnitude negative h, hp]
  split <;> omega

theorem isNegative_ofMagnitude (negative : Bool) (h : magnitude < 2 ^ 63) :
    (ofMagnitude negative magnitude).isNegative = negative := by
  have hp : pow2 63 = 2 ^ 63 := rfl
  rw [isNegative, toNat_bits_ofMagnitude negative h, hp]
  cases negative <;> simp
  omega

end Binary64

namespace Binary32

variable {magnitude : ℕ}

theorem magnitude_lt (y : Binary32) : y.magnitude < 2 ^ 31 := Nat.mod_lt _ (Nat.two_pow_pos 31)

theorem toNat_bits_ofMagnitude (negative : Bool) (h : magnitude < 2 ^ 31) :
    (ofMagnitude negative magnitude).bits.toNat = magnitude + if negative then 2 ^ 31 else 0 := by
  have hp : pow2 31 = 2 ^ 31 := rfl
  rw [ofMagnitude, UInt32.toNat_ofNat', hp]
  apply Nat.mod_eq_of_lt
  split <;> omega

theorem magnitude_ofMagnitude (negative : Bool) (h : magnitude < 2 ^ 31) :
    (ofMagnitude negative magnitude).magnitude = magnitude := by
  have hp : pow2 31 = 2 ^ 31 := rfl
  rw [Binary32.magnitude, toNat_bits_ofMagnitude negative h, hp]
  split <;> omega

theorem isNegative_ofMagnitude (negative : Bool) (h : magnitude < 2 ^ 31) :
    (ofMagnitude negative magnitude).isNegative = negative := by
  have hp : pow2 31 = 2 ^ 31 := rfl
  rw [isNegative, toNat_bits_ofMagnitude negative h, hp]
  cases negative <;> simp
  omega

theorem ofMagnitude_self (y : Binary32) : ofMagnitude y.isNegative y.magnitude = y := by
  have hp : pow2 31 = 2 ^ 31 := rfl
  have hb : (ofMagnitude y.isNegative y.magnitude).bits.toNat = y.bits.toNat := by
    have hl := y.bits.toNat_lt
    rw [toNat_bits_ofMagnitude _ y.magnitude_lt, Binary32.magnitude, isNegative, hp]
    simp only [decide_eq_true_eq]
    split <;> omega
  cases y
  exact congrArg Binary32.mk (UInt32.toNat_inj.1 hb)

end Binary32

def Binary64.IsSingle (x : Binary64) : Prop := ∃ y : Binary32, y.toBinary64 = x

namespace Binary32

variable {y : Binary32} {magnitude : ℕ}

theorem exists_widened (h : y.magnitude < binary32.infinity) :
    ∃ magnitude, y.toBinary64 = .ofMagnitude y.isNegative magnitude ∧ magnitude < binary64.infinity ∧
      binary64.value magnitude = binary32.value y.magnitude := by
  have hs := binary32.hasParts y.magnitude
  have hl := hs.le
  have hm := hs.lt
  have he := hs.eq
  rw [hidden_binary32] at hm
  rw [minExponent_binary32] at hl
  rw [minExponent_binary32, hidden_binary32] at he
  have hi := h
  rw [infinity_binary32] at hi
  obtain ⟨hlt, hv⟩ := value_ofScaled (f := binary64) (e := (binary32.parts y.magnitude).2) (by decide)
    (hm.trans_le (by decide)) (by rw [minExponent_binary64]; omega)
    (by rw [minExponent_binary64, show pow2 binary64.width = 2048 by decide]; omega)
  refine ⟨_, ?_, hlt, hv⟩
  simp only [toBinary64]
  rw [if_neg h.not_gt, if_neg h.ne]

theorem ofBinary64_ofMagnitude (negative : Bool) (h : magnitude < binary64.infinity)
    (hy : y.magnitude < binary32.infinity) (hv : binary64.value magnitude = binary32.value y.magnitude) :
    ofBinary64 (.ofMagnitude negative magnitude) = ofMagnitude negative y.magnitude := by
  have hlt : magnitude < 2 ^ 63 := h.trans (by decide)
  simp only [ofBinary64, Binary64.isNaN, Binary64.isInfinite, Binary64.parts, Binary64.magnitude_ofMagnitude _ hlt,
    Binary64.isNegative_ofMagnitude _ hlt]
  rw [if_neg (by simpa using h.le), if_neg (by simpa using h.ne), ofScaled_eq (by decide) hy.le hv]

theorem ofBinary64_toBinary64 (h : y.magnitude < binary32.infinity) : ofBinary64 y.toBinary64 = y := by
  obtain ⟨magnitude, hm, hi, hv⟩ := exists_widened h
  rw [hm, ofBinary64_ofMagnitude _ hi h hv, ofMagnitude_self]

theorem toBinary64_nan {payload : ℕ} (negative : Bool) (h : payload < 2 ^ 22) :
    (ofMagnitude negative (binary32.infinity + binary32.quietBit + payload)).toBinary64 =
      .ofMagnitude negative (binary64.infinity + binary64.quietBit + payload * 2 ^ 29) := by
  have hq : binary32.quietBit = 2 ^ 22 := by decide
  have hp : pow2 22 = 2 ^ 22 := rfl
  have hlt : binary32.infinity + binary32.quietBit + payload < 2 ^ 31 := by
    rw [infinity_binary32, hq]
    omega
  have hm : (binary32.infinity + binary32.quietBit + payload) % pow2 22 = payload := by
    rw [infinity_binary32, hq, hp]
    omega
  simp only [toBinary64, magnitude_ofMagnitude _ hlt, isNegative_ofMagnitude _ hlt, hm]
  rw [if_pos (by rw [hq]; omega)]
  rfl

theorem ofBinary64_nan {payload : ℕ} (negative : Bool) (h : payload < 2 ^ 22) :
    ofBinary64 (.ofMagnitude negative (binary64.infinity + binary64.quietBit + payload * 2 ^ 29)) =
      ofMagnitude negative (binary32.infinity + binary32.quietBit + payload) := by
  have hq : binary64.quietBit = 2 ^ 51 := by decide
  have hp : pow2 22 = 2 ^ 22 := rfl
  have hr : pow2 29 = 2 ^ 29 := rfl
  have hlt : binary64.infinity + binary64.quietBit + payload * 2 ^ 29 < 2 ^ 63 := by
    rw [infinity_binary64, hq]
    omega
  have hm : (binary64.infinity + binary64.quietBit + payload * 2 ^ 29) / pow2 29 % pow2 22 = payload := by
    rw [infinity_binary64, hq, hp, hr]
    omega
  simp only [ofBinary64, Binary64.isNaN, Binary64.magnitude_ofMagnitude _ hlt, Binary64.isNegative_ofMagnitude _ hlt, hm]
  rw [if_pos]
  rw [decide_eq_true_eq, hq]
  omega

end Binary32

theorem Binary64.IsSingle.narrowed {x : Binary64} (h : x.IsSingle) : (Binary32.ofBinary64 x).toBinary64 = x := by
  obtain ⟨y, rfl⟩ := h
  obtain hlt | heq | hgt := lt_trichotomy y.magnitude binary32.infinity
  · rw [Binary32.ofBinary64_toBinary64 hlt]
  · have hi (negative : Bool) :
        Binary32.ofBinary64 (Binary32.ofMagnitude negative binary32.infinity).toBinary64 =
          Binary32.ofMagnitude negative binary32.infinity := by
      cases negative <;> decide
    rw [← y.ofMagnitude_self, heq, hi]
  · have hw : y.toBinary64 = .ofMagnitude y.isNegative
        (binary64.infinity + binary64.quietBit + y.magnitude % 2 ^ 22 * 2 ^ 29) := by
      simp only [Binary32.toBinary64]
      rw [if_pos hgt]
      rfl
    have hp : y.magnitude % 2 ^ 22 < 2 ^ 22 := Nat.mod_lt _ (by decide)
    rw [hw, Binary32.ofBinary64_nan _ hp, Binary32.toBinary64_nan _ hp]

section

variable {n : ℕ}

theorem exists_rounded_whole (hn : 0 < n) (h : n ≤ 2 ^ 63) : binary64.ofRatio n 1 < binary64.infinity ∧
    ∃ e : ℤ, binary64.hidden * 2 ^ e ≤ (n : ℚ) ∧ |(n : ℚ) - binary64.value (binary64.ofRatio n 1)| ≤ 2 ^ e / 2 := by
  have hc : (n : ℚ) ≤ 2 ^ 63 := by exact_mod_cast h
  have hc1 : (1 : ℚ) ≤ n := Nat.one_le_cast.2 hn
  have hb : (binary64.hidden : ℚ) = 2 ^ 52 := by
    rw [hidden_binary64]
    norm_num
  obtain ⟨hi, e, m, -, hs, hm, hv⟩ := exists_rounded (f := binary64) (by decide) hn Nat.one_pos 11
    (by rw [minExponent_binary64]; decide)
    (by
      rw [hb, Nat.cast_one, div_one]
      exact hc.trans_lt (by norm_num))
    (by rw [minExponent_binary64, show pow2 binary64.width = 2048 by decide]; decide)
  rw [Nat.cast_one, div_one] at hs hm
  have hge : -52 ≤ e := by
    apply hs.le_of_le
    rw [hb]
    exact le_trans (by norm_num) hc1
  refine ⟨hi, e, hs.normal.resolve_right (by rw [minExponent_binary64]; omega), ?_⟩
  have hu : (0 : ℚ) < 2 ^ e := by positivity
  rw [hv]
  calc |(n : ℚ) - m * 2 ^ e| = |(m : ℚ) - n / 2 ^ e| * 2 ^ e := by
        rw [abs_sub_comm, ← abs_of_pos hu, ← abs_mul, abs_of_pos hu, sub_mul, div_mul_cancel₀ _ hu.ne']
    _ ≤ 1 / 2 * 2 ^ e := mul_le_mul_of_nonneg_right hm hu.le
    _ = 2 ^ e / 2 := by ring

/-- Rounding to double precision first makes no other number of single precision the nearest. -/
theorem ofRatio_binary32_of_value (h : n ≤ 2 ^ 63) {magnitude : ℕ} (hi : magnitude < binary32.infinity)
    (hv : binary64.value (binary64.ofRatio n 1) = binary32.value magnitude) : binary32.ofRatio n 1 = magnitude := by
  obtain rfl | hn := Nat.eq_zero_or_pos n
  · have hz (f : FloatFormat) : f.ofRatio 0 1 = 0 := if_pos rfl
    rw [hz, value_eq_zero_iff.2 rfl, eq_comm, value_eq_zero_iff] at hv
    rw [hz, hv]
  · obtain ⟨-, e, hl, hd⟩ := exists_rounded_whole hn h
    have hs := binary32.hasParts magnitude
    rw [hv, value] at hd
    apply ofRatio_of_near (by decide) hn Nat.one_pos hs hi.le
    rw [Nat.cast_one, div_one]
    generalize (binary32.parts magnitude).1 = m at hs hd
    generalize (binary32.parts magnitude).2 = e' at hs hd
    have hm : (m : ℚ) * 2 ^ e' ≤ 16777216 * 2 ^ e' := by
      have hlt := hs.lt
      rw [hidden_binary32] at hlt
      exact mul_le_mul_of_nonneg_right (by exact_mod_cast hlt.le) (by positivity)
    rw [hidden_binary64] at hl
    have hu : (0 : ℚ) < 2 ^ e := by positivity
    rw [abs_le] at hd
    rw [abs_lt]
    push_cast at hl
    constructor <;> linarith

end

theorem Binary32.magnitude_lt_infinity {y : Binary32} (h : y.toBinary64.magnitude < binary64.infinity) :
    y.magnitude < binary32.infinity := by
  by_contra hn
  simp only [toBinary64] at h
  have hq : binary64.quietBit = 2 ^ 51 := by decide
  have hp : pow2 22 = 2 ^ 22 := rfl
  have hr : pow2 29 = 2 ^ 29 := rfl
  split at h
  · rw [Binary64.magnitude_ofMagnitude _ (by rw [infinity_binary64, hq, hp, hr]; omega)] at h
    omega
  · rw [if_pos (by omega), Binary64.magnitude_ofMagnitude _ (by decide)] at h
    omega

theorem Binary32.ofInt_of_toBinary64 {y : Binary32} {n : ℤ} (hn : n.natAbs ≤ 2 ^ 63) (h : y.toBinary64 = .ofInt n) :
    ofInt n = y := by
  have hi : binary64.ofRatio n.natAbs 1 < binary64.infinity := by
    obtain hz | hpos := Nat.eq_zero_or_pos n.natAbs
    · rw [hz]
      decide
    · exact (exists_rounded_whole hpos hn).1
  have hlt : binary64.ofRatio n.natAbs 1 < 2 ^ 63 := hi.trans (by decide)
  have hm : y.toBinary64.magnitude = binary64.ofRatio n.natAbs 1 := by
    rw [h]
    exact Binary64.magnitude_ofMagnitude _ hlt
  have hs : y.toBinary64.isNegative = decide (n < 0) := by
    rw [h]
    exact Binary64.isNegative_ofMagnitude _ hlt
  have hy := magnitude_lt_infinity (hm.trans_lt hi)
  obtain ⟨magnitude, hw, hi', hv⟩ := exists_widened hy
  have hlt' : magnitude < 2 ^ 63 := hi'.trans (by decide)
  rw [hw, Binary64.magnitude_ofMagnitude _ hlt'] at hm
  rw [hw, Binary64.isNegative_ofMagnitude _ hlt'] at hs
  rw [hm] at hv
  rw [ofInt, ofRatio_binary32_of_value hn hy hv, ← hs, ofMagnitude_self]

end Upsert
