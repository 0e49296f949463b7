import Mathlib.Algebra.Order.Field.Power
import Mathlib.Algebra.Order.Ring.Abs
import Mathlib.Tactic.FieldSimp
import Mathlib.Tactic.Linarith
import Mathlib.Tactic.Positivity
import Mathlib.Tactic.Ring
import Upsert.Number.Binary

namespace Upsert

section

variable {num den : ℕ}

theorem abs_roundHalfEven_sub_le (num : ℕ) (h : 0 < den) : |(roundHalfEven num den : ℚ) - num / den| ≤ 1 / 2 := by
  have hd : (0 : ℚ) < den := Nat.cast_pos.2 h
  have hq := Nat.div_add_mod num den
  have hr := Nat.mod_lt num h
  have hb : 2 * num ≤ 2 * (den * roundHalfEven num den) + den ∧ 2 * (den * roundHalfEven num den) ≤ 2 * num + den := by
    simp only [roundHalfEven]
    split_ifs
    · omega
    · rw [Nat.mul_add, Nat.mul_one]
      omega
    · have hm : den * (num / den % 2) ≤ den * 1 := Nat.mul_le_mul_left den (by omega)
      rw [Nat.mul_add]
      omega
  have hl : (2 : ℚ) * num ≤ 2 * (den * roundHalfEven num den) + den := by exact_mod_cast hb.1
  have hh : (2 : ℚ) * (den * roundHalfEven num den) ≤ 2 * num + den := by exact_mod_cast hb.2
  have hn : (num : ℚ) / den * den = num := div_mul_cancel₀ _ hd.ne'
  rw [abs_le]
  constructor
  · apply le_of_mul_le_mul_right _ hd
    linarith
  · apply le_of_mul_le_mul_right _ hd
    linarith

theorem abs_roundHalfEven_scaled_sub_le (num : ℕ) (hd : 0 < den) (e : ℤ) :
    |((if 0 ≤ e then roundHalfEven num (den * pow2 e.toNat) else roundHalfEven (num * pow2 (-e).toNat) den : ℕ) : ℚ) -
      num / den / 2 ^ e| ≤ 1 / 2 := by
  split
  · next he =>
    obtain ⟨k, rfl⟩ := Int.eq_ofNat_of_zero_le he
    have h := abs_roundHalfEven_sub_le num (Nat.mul_pos hd (Nat.two_pow_pos k))
    rw [Nat.cast_mul, ← div_div] at h
    rw [zpow_natCast]
    exact_mod_cast h
  · next he =>
    obtain ⟨k, hk⟩ := Int.eq_ofNat_of_zero_le (show 0 ≤ -e by omega)
    obtain rfl : e = -k := by omega
    have h := abs_roundHalfEven_sub_le (num * 2 ^ k) hd
    rw [Nat.cast_mul, mul_div_right_comm] at h
    rw [zpow_neg, zpow_natCast, div_inv_eq_mul, neg_neg]
    exact_mod_cast h

theorem zpow_le_div_iff (k : ℤ) (hd : 0 < den) : (2 : ℚ) ^ k ≤ num / den ↔
    if 0 ≤ k then den * pow2 k.toNat ≤ num else den ≤ num * pow2 (-k).toNat := by
  have hd' : (0 : ℚ) < den := Nat.cast_pos.2 hd
  rw [le_div_iff₀ hd']
  split
  · next hk =>
    obtain ⟨n, rfl⟩ := Int.eq_ofNat_of_zero_le hk
    rw [zpow_natCast, Int.toNat_natCast, mul_comm]
    exact_mod_cast Iff.rfl
  · next hk =>
    obtain ⟨n, hn⟩ := Int.eq_ofNat_of_zero_le (show 0 ≤ -k by omega)
    obtain rfl : k = -n := by omega
    rw [zpow_neg, zpow_natCast, neg_neg, Int.toNat_natCast, inv_mul_le_iff₀ (by positivity), mul_comm]
    exact_mod_cast Iff.rfl

theorem div_between_zpow_log2 (hn : 0 < num) (hd : 0 < den) :
    (2 : ℚ) ^ ((num.log2 : ℤ) - den.log2 - 1) ≤ num / den ∧ (num / den : ℚ) < 2 ^ ((num.log2 : ℤ) - den.log2 + 1) := by
  have hd' : (0 : ℚ) < den := Nat.cast_pos.2 hd
  have hnl : (2 : ℚ) ^ num.log2 ≤ num := by exact_mod_cast Nat.log2_self_le hn.ne'
  have hnh : (num : ℚ) < 2 ^ (num.log2 + 1) := by exact_mod_cast Nat.lt_log2_self
  have hdl : (2 : ℚ) ^ den.log2 ≤ den := by exact_mod_cast Nat.log2_self_le hd.ne'
  have hdh : (den : ℚ) < 2 ^ (den.log2 + 1) := by exact_mod_cast Nat.lt_log2_self
  have hl : (num.log2 : ℤ) - den.log2 - 1 = num.log2 - (den.log2 + 1 : ℕ) := by omega
  have hh : (num.log2 : ℤ) - den.log2 + 1 = (num.log2 + 1 : ℕ) - den.log2 := by omega
  constructor
  · rw [hl, zpow_sub₀ two_ne_zero, zpow_natCast, zpow_natCast]
    exact div_le_div₀ (by positivity) hnl hd' hdh.le
  · rw [hh, zpow_sub₀ two_ne_zero, zpow_natCast, zpow_natCast]
    exact div_lt_div₀ hnh hdl (by positivity) (by positivity)

theorem floorLog2_spec (hn : 0 < num) (hd : 0 < den) :
    (2 : ℚ) ^ floorLog2 num den ≤ num / den ∧ (num / den : ℚ) < 2 ^ (floorLog2 num den + 1) := by
  obtain ⟨hl, hh⟩ := div_between_zpow_log2 hn hd
  obtain ⟨k, hk⟩ : ∃ k : ℤ, k = num.log2 - den.log2 := ⟨_, rfl⟩
  have hf : floorLog2 num den = if (2 : ℚ) ^ k ≤ num / den then k else k - 1 := by
    simp only [zpow_le_div_iff k hd]
    rw [hk]
    rfl
  rw [← hk] at hl hh
  rw [hf]
  split
  · next hr => exact ⟨hr, hh⟩
  · next hr =>
    rw [sub_add_cancel]
    exact ⟨hl, not_le.1 hr⟩

end

namespace FloatFormat

variable {f : FloatFormat}

/-- The least significand that is stored without its first bit. -/
def hidden (f : FloatFormat) : ℕ := pow2 (f.precision - 1)

theorem hidden_pos : 0 < f.hidden := Nat.two_pow_pos _

structure HasParts (f : FloatFormat) (magnitude m : ℕ) (e : ℤ) : Prop where
  le : f.minExponent ≤ e
  lt : m < 2 * f.hidden
  normal : f.hidden ≤ m ∨ e = f.minExponent
  eq : magnitude = (e - f.minExponent).toNat * f.hidden + m

def value (f : FloatFormat) (magnitude : ℕ) : ℚ := (f.parts magnitude).1 * 2 ^ (f.parts magnitude).2

theorem hasParts (f : FloatFormat) (magnitude : ℕ) :
    f.HasParts magnitude (f.parts magnitude).1 (f.parts magnitude).2 := by
  have hp := f.hidden_pos
  have hd := Nat.div_add_mod magnitude f.hidden
  have hm := Nat.mod_lt magnitude hp
  rw [hidden] at hp hd hm
  simp only [parts]
  split
  · next h =>
    refine ⟨le_rfl, ?_, .inr rfl, ?_⟩
    · rw [hidden]
      rw [h] at hd
      omega
    · rw [Int.sub_self, Int.toNat_zero, Nat.zero_mul, Nat.zero_add]
  · next h =>
    obtain ⟨k, hk⟩ := Nat.exists_eq_succ_of_ne_zero h
    have he : (f.minExponent + (magnitude / pow2 (f.precision - 1) : ℕ) - 1 - f.minExponent).toNat = k := by omega
    refine ⟨by omega, ?_, .inl ?_, ?_⟩
    · rw [hidden]
      omega
    · exact Nat.le_add_right _ _
    · rw [he, hidden]
      rw [hk, Nat.mul_succ, Nat.mul_comm] at hd
      omega

theorem HasParts.parts_eq {magnitude m : ℕ} {e : ℤ} (h : f.HasParts magnitude m e) : f.parts magnitude = (m, e) := by
  have hp := f.hidden_pos
  have hl := h.le
  have ht := h.lt
  obtain ⟨k, hk⟩ := Int.eq_ofNat_of_zero_le (show 0 ≤ e - f.minExponent by omega)
  have he : magnitude = k * f.hidden + m := by
    rw [h.eq, hk]
    rfl
  by_cases hm : f.hidden ≤ m
  · obtain ⟨r, hr⟩ := Nat.exists_eq_add_of_le hm
    have hs : magnitude = r + f.hidden * (k + 1) := by
      rw [he, hr]
      ring
    have hd : magnitude / f.hidden = k + 1 := by
      rw [hs, Nat.add_mul_div_left _ _ hp, Nat.div_eq_of_lt (by omega), Nat.zero_add]
    have hn : magnitude % f.hidden = r := by
      rw [hs, Nat.add_mul_mod_self_left, Nat.mod_eq_of_lt (by omega)]
    rw [hidden] at hd hn
    simp only [parts, hd, hn]
    rw [if_neg (Nat.succ_ne_zero k), Prod.mk.injEq]
    refine ⟨?_, ?_⟩
    · rw [hr, hidden]
    · push_cast
      omega
  · have hk0 : k = 0 := by
      have := h.normal.resolve_left hm
      omega
    rw [hk0, Nat.zero_mul, Nat.zero_add] at he
    have hd : magnitude / f.hidden = 0 := Nat.div_eq_of_lt (by omega)
    rw [hidden] at hd
    simp only [parts, hd]
    rw [if_pos trivial, he, h.normal.resolve_left hm]

theorem HasParts.value_eq {magnitude m : ℕ} {e : ℤ} (h : f.HasParts magnitude m e) : f.value magnitude = m * 2 ^ e := by
  rw [value, h.parts_eq]

theorem value_eq_zero_iff {magnitude : ℕ} : f.value magnitude = 0 ↔ magnitude = 0 := by
  have h := f.hasParts magnitude
  have hp := f.hidden_pos
  rw [value, mul_eq_zero, or_iff_left (zpow_ne_zero _ two_ne_zero), Nat.cast_eq_zero]
  constructor
  · intro hm
    have hn := h.normal.resolve_left (by omega)
    rw [h.eq, hn, hm, Int.sub_self, Int.toNat_zero, Nat.zero_mul]
  · intro hm
    have he := h.eq
    omega

theorem shifted_eq {e : ℤ} (hl : f.minExponent ≤ e) : (e + 1 - f.minExponent).toNat * f.hidden + f.hidden =
    (e - f.minExponent).toNat * f.hidden + 2 * f.hidden := by
  have he : (e + 1 - f.minExponent).toNat = (e - f.minExponent).toNat + 1 := by omega
  rw [he]
  ring

theorem value_shifted {m : ℕ} {e : ℤ} (hl : f.minExponent ≤ e) (hm : m ≤ 2 * f.hidden)
    (hn : f.hidden ≤ m ∨ e = f.minExponent) :
    f.value ((e - f.minExponent).toNat * f.hidden + m) = m * 2 ^ e := by
  obtain hm | hm := Nat.lt_or_eq_of_le hm
  · exact HasParts.value_eq ⟨hl, hm, hn, rfl⟩
  · have hp := f.hidden_pos
    have hs : f.HasParts ((e - f.minExponent).toNat * f.hidden + m) f.hidden (e + 1) := by
      refine ⟨by omega, by omega, .inl le_rfl, ?_⟩
      rw [shifted_eq hl, hm]
    rw [hs.value_eq, hm, zpow_add₀ two_ne_zero]
    push_cast
    ring

/-- A number is rounded to a multiple of `2 ^ e`. -/
structure IsScale (f : FloatFormat) (q : ℚ) (e : ℤ) : Prop where
  le : f.minExponent ≤ e
  lt : q < 2 * f.hidden * 2 ^ e
  normal : f.hidden * 2 ^ e ≤ q ∨ e = f.minExponent

section

variable {q : ℚ} {e e' : ℤ}

theorem hidden_mul_lt_iff : (f.hidden * 2 ^ e : ℚ) < f.hidden * 2 ^ e' ↔ e < e' := by
  have hp : (0 : ℚ) < f.hidden := Nat.cast_pos.2 hidden_pos
  rw [mul_lt_mul_iff_right₀ hp, zpow_lt_zpow_iff_right₀ one_lt_two]

theorem two_mul_hidden_mul : (2 * f.hidden * 2 ^ e : ℚ) = f.hidden * 2 ^ (e + 1) := by
  rw [zpow_add₀ two_ne_zero]
  ring

theorem IsScale.le_of_lt (h : f.IsScale q e) (hm : f.minExponent ≤ e') (hq : q < 2 * f.hidden * 2 ^ e') : e ≤ e' := by
  obtain hn | hn := h.normal
  · rw [two_mul_hidden_mul] at hq
    have := hidden_mul_lt_iff.1 (hn.trans_lt hq)
    omega
  · omega

theorem IsScale.le_of_le (h : f.IsScale q e) (hq : f.hidden * 2 ^ e' ≤ q) : e' ≤ e := by
  have hl := h.lt
  rw [two_mul_hidden_mul] at hl
  have := hidden_mul_lt_iff.1 (hq.trans_lt hl)
  omega

end

section

variable {num den : ℕ}

theorem isScale_floorLog2 (hp : 0 < f.precision) (hn : 0 < num) (hd : 0 < den) :
    f.IsScale (num / den) (max (floorLog2 num den - (f.precision - 1)) f.minExponent) := by
  obtain ⟨hl, hh⟩ := floorLog2_spec hn hd
  have hb : (f.hidden : ℚ) = 2 ^ ((f.precision : ℤ) - 1) := by
    rw [← Nat.cast_pred hp, zpow_natCast]
    exact_mod_cast rfl
  refine ⟨le_max_right _ _, ?_, ?_⟩
  · refine hh.trans_le ?_
    rw [two_mul_hidden_mul, hb, ← zpow_add₀ two_ne_zero]
    exact zpow_le_zpow_right₀ one_le_two (by omega)
  · obtain hs | hs := le_total f.minExponent (floorLog2 num den - (f.precision - 1))
    · left
      rw [hb, ← zpow_add₀ two_ne_zero, max_eq_left hs, add_sub_cancel]
      exact hl
    · exact .inr (max_eq_right hs)

theorem exists_ofRatio (hp : 0 < f.precision) (hn : 0 < num) (hd : 0 < den) :
    ∃ (e : ℤ) (m : ℕ), f.IsScale (num / den) e ∧ |(m : ℚ) - num / den / 2 ^ e| ≤ 1 / 2 ∧
      f.ofRatio num den = min f.infinity ((e - f.minExponent).toNat * f.hidden + m) := by
  refine ⟨_, _, isScale_floorLog2 hp hn hd, abs_roundHalfEven_scaled_sub_le num hd _, ?_⟩
  rw [ofRatio, if_neg hn.ne']
  rfl

theorem IsScale.div_lt {q : ℚ} {e : ℤ} (h : f.IsScale q e) : q / 2 ^ e < 2 * f.hidden :=
  (div_lt_iff₀ (by positivity)).2 h.lt

theorem eq_of_abs_sub_lt {m n : ℕ} (h : |(m : ℚ) - n| < 1) : m = n := by
  have hz : |(m : ℤ) - n| < 1 := by exact_mod_cast h
  rw [Int.abs_lt_one_iff] at hz
  omega

/-- A number near the one of a pattern is rounded at the exponent of the pattern. Below a power of two the last place is
half as wide, and the number can be rounded at the exponent before. -/
theorem IsScale.cases_of_near {magnitude m : ℕ} {q : ℚ} {e e' : ℤ} (hs : f.IsScale q e') (h : f.HasParts magnitude m e)
    (hq : |q / 2 ^ e - m| < 1 / 4) : e' = e ∨ m = f.hidden ∧ e' + 1 = e := by
  have hu : (0 : ℚ) < 2 ^ e := by positivity
  have hm : (m : ℚ) + 1 ≤ 2 * f.hidden := by exact_mod_cast h.lt
  rw [abs_lt] at hq
  have hle : e' ≤ e := by
    apply hs.le_of_lt h.le
    rw [← div_lt_iff₀ hu]
    linarith
  refine hle.eq_or_lt.imp_right fun hlt ↦ ?_
  have hh : f.hidden ≤ m := h.normal.resolve_right (hs.le.trans_lt hlt).ne'
  have hhm : (f.hidden : ℚ) ≤ m := Nat.cast_le.2 hh
  have hh1 : (1 : ℚ) ≤ f.hidden := Nat.one_le_cast.2 hidden_pos
  have hge : e - 1 ≤ e' := by
    apply hs.le_of_le
    rw [zpow_sub_one₀ two_ne_zero, mul_left_comm, ← le_div_iff₀' hu]
    linarith
  have he : e' + 1 = e := by omega
  have hqh : q / 2 ^ e < f.hidden := by
    rw [div_lt_iff₀ hu, ← he, ← two_mul_hidden_mul]
    exact hs.lt
  have hmh : (m : ℚ) < f.hidden + 1 := by linarith
  exact ⟨(Nat.lt_add_one_iff.1 (by exact_mod_cast hmh)).antisymm hh, he⟩

theorem ofRatio_of_near (hp : 0 < f.precision) (hn : 0 < num) (hd : 0 < den) {magnitude m : ℕ} {e : ℤ}
    (h : f.HasParts magnitude m e) (hi : magnitude ≤ f.infinity) (hq : |(num / den : ℚ) - m * 2 ^ e| < 2 ^ e / 4) :
    f.ofRatio num den = magnitude := by
  obtain ⟨e', m', hs, hm, hr⟩ := exists_ofRatio hp hn hd
  generalize (num / den : ℚ) = q at hs hm hq
  have hu : (0 : ℚ) < 2 ^ e := by positivity
  have hx : |q / 2 ^ e - m| < 1 / 4 := by
    rw [div_sub' hu.ne', mul_comm, abs_div, abs_of_pos hu, div_lt_iff₀ hu]
    linarith
  have hc := hs.cases_of_near h hx
  rw [abs_lt] at hx
  rw [abs_le] at hm
  suffices hmagnitude : magnitude = (e' - f.minExponent).toNat * f.hidden + m' by
    rw [hr, ← hmagnitude, min_eq_right hi]
  obtain rfl | ⟨rfl, rfl⟩ := hc
  · have hmm : m' = m := by
      apply eq_of_abs_sub_lt
      rw [abs_lt]
      constructor <;> linarith
    rw [h.eq, hmm]
  · have h2 : q / 2 ^ e' = 2 * (q / 2 ^ (e' + 1)) := by
      rw [zpow_add_one₀ two_ne_zero, mul_comm _ (2 : ℚ), ← div_div]
      ring
    rw [h2] at hm
    have hmm : m' = 2 * f.hidden := by
      apply eq_of_abs_sub_lt
      push_cast
      rw [abs_lt]
      constructor <;> linarith
    rw [h.eq, hmm, shifted_eq hs.le]

theorem exists_rounded (hp : 0 < f.precision) (hn : 0 < num) (hd : 0 < den) (e₀ : ℤ) (he : f.minExponent ≤ e₀)
    (hq : (num / den : ℚ) < 2 * f.hidden * 2 ^ e₀) (hi : (e₀ - f.minExponent).toNat + 2 < pow2 f.width - 1) :
    f.ofRatio num den < f.infinity ∧ ∃ (e : ℤ) (m : ℕ), e ≤ e₀ ∧ f.IsScale (num / den) e ∧
      |(m : ℚ) - num / den / 2 ^ e| ≤ 1 / 2 ∧ f.value (f.ofRatio num den) = m * 2 ^ e := by
  obtain ⟨e, m, hs, hm, hr⟩ := exists_ofRatio hp hn hd
  generalize (num / den : ℚ) = q at hs hm hq
  have hle := hs.le_of_lt he hq
  have hlt := hs.div_lt
  have hml : m ≤ 2 * f.hidden := by
    have hc : (m : ℚ) < (2 * f.hidden : ℕ) + 1 := by
      rw [abs_le] at hm
      push_cast
      linarith
    exact Nat.lt_add_one_iff.1 (by exact_mod_cast hc)
  have hmn : f.hidden ≤ m ∨ e = f.minExponent := by
    refine hs.normal.imp_left fun hn ↦ ?_
    rw [← le_div_iff₀ (by positivity)] at hn
    have hc : (f.hidden : ℚ) < m + 1 := by
      rw [abs_le] at hm
      linarith
    exact Nat.lt_add_one_iff.1 (by exact_mod_cast hc)
  have hinf : (e - f.minExponent).toNat * f.hidden + m < f.infinity := by
    calc (e - f.minExponent).toNat * f.hidden + m ≤ ((e - f.minExponent).toNat + 2) * f.hidden := by
          rw [Nat.add_mul]
          omega
      _ < (pow2 f.width - 1) * f.hidden := Nat.mul_lt_mul_of_pos_right (by omega) hidden_pos
  rw [hr, min_eq_right hinf.le]
  exact ⟨hinf, e, m, hle, hs, hm, value_shifted hs.le hml hmn⟩

end

section

variable {m magnitude : ℕ} {e : ℤ}

theorem exists_ofRatio_of_scaled (f : FloatFormat) (hm : 0 < m) (e : ℤ) : ∃ num den : ℕ, 0 < num ∧ 0 < den ∧
    (num / den : ℚ) = m * 2 ^ e ∧ f.ofScaled m e = f.ofRatio num den := by
  rw [ofScaled]
  split
  · next he =>
    obtain ⟨k, rfl⟩ := Int.eq_ofNat_of_zero_le he
    refine ⟨_, 1, Nat.mul_pos hm (Nat.two_pow_pos k), Nat.one_pos, ?_, rfl⟩
    rw [zpow_natCast, Nat.cast_one, div_one]
    exact_mod_cast rfl
  · next he =>
    obtain ⟨k, hk⟩ := Int.eq_ofNat_of_zero_le (show 0 ≤ -e by omega)
    obtain rfl : e = -k := by omega
    refine ⟨m, _, hm, Nat.two_pow_pos k, ?_, by rw [neg_neg]; rfl⟩
    rw [zpow_neg, zpow_natCast, ← div_eq_mul_inv]
    exact_mod_cast rfl

theorem ofScaled_zero (f : FloatFormat) (e : ℤ) : f.ofScaled 0 e = 0 := by
  rw [ofScaled]
  split
  · rw [Nat.zero_mul]
    exact if_pos rfl
  · exact if_pos rfl

theorem ofScaled_eq (hp : 0 < f.precision) (hi : magnitude ≤ f.infinity) (h : (m * 2 ^ e : ℚ) = f.value magnitude) :
    f.ofScaled m e = magnitude := by
  obtain rfl | hm := Nat.eq_zero_or_pos m
  · rw [ofScaled_zero, eq_comm, ← value_eq_zero_iff (f := f), ← h, Nat.cast_zero, zero_mul]
  · obtain ⟨num, den, hn, hd, hq, hr⟩ := f.exists_ofRatio_of_scaled hm e
    rw [hr]
    apply ofRatio_of_near hp hn hd (f.hasParts magnitude) hi
    rw [hq, h, value, sub_self, abs_zero]
    positivity

theorem value_ofScaled (hp : 0 < f.precision) (hm : m < 2 * f.hidden) (he : f.minExponent ≤ e)
    (hi : (e - f.minExponent).toNat + 2 < pow2 f.width - 1) :
    f.ofScaled m e < f.infinity ∧ f.value (f.ofScaled m e) = m * 2 ^ e := by
  obtain rfl | hpos := Nat.eq_zero_or_pos m
  · rw [ofScaled_zero, Nat.cast_zero, zero_mul, value_eq_zero_iff]
    exact ⟨Nat.mul_pos (by omega) hidden_pos, rfl⟩
  · obtain ⟨num, den, hn, hd, hq, hr⟩ := f.exists_ofRatio_of_scaled hpos e
    have hlt : (num / den : ℚ) < 2 * f.hidden * 2 ^ e := by
      rw [hq]
      exact mul_lt_mul_of_pos_right (by exact_mod_cast hm) (by positivity)
    obtain ⟨hinf, e', m', hle, -, hm', hv⟩ := exists_rounded hp hn hd e he hlt hi
    rw [hr]
    refine ⟨hinf, ?_⟩
    obtain ⟨k, rfl⟩ := Int.le.dest hle
    have hu : (2 : ℚ) ^ e' ≠ 0 := by positivity
    have hk : (m * 2 ^ (e' + k) / 2 ^ e' : ℚ) = (m * 2 ^ k : ℕ) := by
      rw [zpow_add₀ two_ne_zero, zpow_natCast, mul_left_comm, mul_div_cancel_left₀ _ hu]
      push_cast
      rfl
    rw [hq, hk] at hm'
    have hmk : m' = m * 2 ^ k := eq_of_abs_sub_lt (hm'.trans_lt (by norm_num))
    rw [hv, hmk, zpow_add₀ two_ne_zero, zpow_natCast]
    push_cast
    ring

end

end FloatFormat

end Upsert
