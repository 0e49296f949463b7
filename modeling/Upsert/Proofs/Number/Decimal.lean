import Mathlib.Algebra.Order.Field.Basic
import Mathlib.Algebra.Order.Field.Power
import Mathlib.Data.Option.Basic
import Mathlib.Tactic.FieldSimp
import Mathlib.Tactic.LinearCombination
import Mathlib.Tactic.Positivity
import Mathlib.Tactic.Ring
import Upsert.Number.Decimal
import Upsert.Proofs.Text.Digits

namespace Upsert.Decimal

def value (d : Decimal) : ℚ := d.digits * 10 ^ (-d.scale)

def IsWhole (q : ℚ) : Prop := ∃ n : ℤ, q = n

variable {d : Decimal} {digits scale : ℤ}

theorem pow10_eq (n : ℕ) : pow10 n = 10 ^ n := rfl

theorem value_ofNat (k : ℕ) : value ⟨digits, k⟩ = digits / 10 ^ k := by
  rw [value, zpow_neg, zpow_natCast, div_eq_mul_inv]

theorem value_ofNat_eq_iff {n : ℤ} (k : ℕ) : value ⟨digits, k⟩ = n ↔ digits = n * 10 ^ k := by
  have hp : (10 : ℚ) ^ k ≠ 0 := by positivity
  rw [value_ofNat, div_eq_iff hp]
  norm_cast

theorem value_neg (k : ℕ) : value ⟨digits, -k⟩ = (digits * 10 ^ k : ℤ) := by
  rw [value, neg_neg, zpow_natCast]
  push_cast
  rfl

@[simp] theorem value_whole (n : ℤ) : value ⟨n, 0⟩ = n := by simp [value]

theorem cast_signed (negative : Bool) (m : ℕ) : (Text.signed negative m : ℚ) = Text.signed negative 1 * m := by
  cases negative <;> simp [Text.signed]

theorem value_eq_zero_iff : d.value = 0 ↔ d.digits = 0 := by
  have hp : (10 : ℚ) ^ (-d.scale) ≠ 0 := by positivity
  rw [value, mul_eq_zero, or_iff_left hp, Int.cast_eq_zero]

theorem scale_inj {scale' : ℤ} (hd : digits ≠ 0) (h : value ⟨digits, scale⟩ = value ⟨digits, scale'⟩) : scale = scale' := by
  have hp := mul_left_cancel₀ (Int.cast_ne_zero.2 hd) h
  exact neg_inj.1 (zpow_right_injective₀ (by norm_num) (by norm_num) hp)

theorem value_sub (e : ℤ) : value ⟨digits, scale - e⟩ = value ⟨digits, scale⟩ * 10 ^ e := by
  rw [value, value, mul_assoc, ← zpow_add₀ (by norm_num)]
  congr 2
  ring

theorem value_mul_pow10 (k : ℕ) : value ⟨digits * 10 ^ k, scale + k⟩ = value ⟨digits, scale⟩ := by
  have hk : (10 : ℚ) ^ k * 10 ^ (-(k : ℤ)) = 1 := by
    rw [zpow_neg, zpow_natCast]
    exact mul_inv_cancel₀ (by positivity)
  rw [value, value, neg_add, zpow_add₀ (by norm_num)]
  push_cast
  linear_combination (digits : ℚ) * 10 ^ (-scale) * hk

theorem natAbs_lt_pow_digitCount (d : Decimal) : d.digits.natAbs < 10 ^ d.digitCount :=
  (Nat.length_toDigits_le_iff (by norm_num) Nat.length_toDigits_pos).1 le_rfl

theorem isWhole_iff_of_digitCount_le (h : (d.digitCount : ℤ) ≤ d.scale) : IsWhole d.value ↔ d.value = 0 := by
  refine ⟨?_, fun hz ↦ ⟨0, by simpa using hz⟩⟩
  rintro ⟨n, hn⟩
  obtain ⟨k, hk⟩ := Int.eq_ofNat_of_zero_le (show 0 ≤ d.scale by omega)
  have hlt : d.digits.natAbs < 10 ^ k :=
    d.natAbs_lt_pow_digitCount.trans_le (Nat.pow_le_pow_right (by norm_num) (by omega))
  have hd : d.digits = n * 10 ^ k := by
    rw [← value_ofNat_eq_iff, ← hn, ← hk]
  rw [hd, Int.natAbs_mul, Int.natAbs_pow] at hlt
  have hz : n.natAbs = 0 := by
    by_contra hne
    have := Nat.le_mul_of_pos_left (10 ^ k) (Nat.pos_of_ne_zero hne)
    simp only [Int.reduceAbs] at hlt
    omega
  simp [hn, Int.natAbs_eq_zero.1 hz]

theorem tdiv_eq_value_iff (k : ℕ) : ((digits.tdiv (10 ^ k) : ℤ) : ℚ) = value ⟨digits, k⟩ ↔ IsWhole (value ⟨digits, k⟩) := by
  refine ⟨fun h ↦ ⟨_, h.symm⟩, ?_⟩
  rintro ⟨n, hn⟩
  rw [hn, (value_ofNat_eq_iff k).1 hn, Int.mul_tdiv_cancel _ (by positivity)]

def truncated (d : Decimal) : ℤ :=
  if 0 ≤ d.scale then d.digits.tdiv (pow10 d.scale.toNat) else d.digits * pow10 (-d.scale).toNat

theorem truncated_eq_value_iff (d : Decimal) : (d.truncated : ℚ) = d.value ↔ IsWhole d.value := by
  obtain ⟨digits, scale⟩ := d
  rcases le_or_gt 0 scale with hs | hs
  · obtain ⟨k, rfl⟩ := Int.eq_ofNat_of_zero_le hs
    have ht : truncated ⟨digits, k⟩ = digits.tdiv (10 ^ k) := by
      rw [truncated, if_pos hs, pow10_eq]
      simp
    rw [ht]
    exact tdiv_eq_value_iff k
  · obtain ⟨k, hk⟩ := Int.eq_ofNat_of_zero_le (show 0 ≤ -scale by omega)
    obtain rfl : scale = -k := by omega
    have ht : truncated ⟨digits, -k⟩ = digits * 10 ^ k := by
      rw [truncated, if_neg (not_le.2 hs), pow10_eq]
      simp
    rw [ht, value_neg]
    exact ⟨fun _ ↦ ⟨_, rfl⟩, fun _ ↦ rfl⟩

theorem toInt64?_eq_value_iff {n : Int64} (h : d.toInt64? = some n) : (n.toInt : ℚ) = d.value ↔ IsWhole d.value := by
  by_cases hs : d.digits = 0 ∨ (d.digitCount : ℤ) ≤ d.scale
  · rw [toInt64?, if_pos hs] at h
    have hn : n.toInt = 0 := by
      cases h
      rfl
    have hw : IsWhole d.value ↔ d.value = 0 := by
      refine hs.elim (fun hz ↦ ?_) isWhole_iff_of_digitCount_le
      have hv := value_eq_zero_iff.2 hz
      exact ⟨fun _ ↦ hv, fun _ ↦ ⟨0, by simpa using hv⟩⟩
    rw [hw, hn, Int.cast_zero, eq_comm]
  · rw [toInt64?, if_neg hs] at h
    obtain ⟨_, -, h⟩ := Option.bind_eq_some_iff.1 h
    obtain ⟨_, hr, h⟩ := Option.bind_eq_some_iff.1 h
    obtain ⟨hl, hh⟩ := (Option.guard_eq_some' _).1 hr
    obtain rfl := Option.some.inj h
    have hn : (Int64.ofInt d.truncated).toInt = d.truncated :=
      Int64.toInt_ofInt_of_le hl (Int.lt_add_one_iff.2 hh)
    rw [← truncated_eq_value_iff, ← hn]
    rfl

end Upsert.Decimal
