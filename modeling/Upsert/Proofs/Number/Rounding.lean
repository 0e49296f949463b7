import Upsert.Number.Numeric
import Upsert.Proofs.Number.Decimal

namespace Upsert.Numeric

theorem of?_eq_some {c : ℤ} {scale : ℕ} {n : Numeric} (h : of? c scale = some n) : n.coefficient = c ∧ n.scale = scale := by
  rw [of?] at h
  split at h
  · cases h
    exact ⟨rfl, rfl⟩
  · cases h

theorem of?_self (n : Numeric) : of? n.coefficient n.scale = some n := dif_pos ⟨n.natAbs_lt, n.scale_le⟩

theorem roundHalfUp_mul {p : ℕ} (m : ℕ) (hp : 0 < p) : roundHalfUp (m * p) p = m := by
  rw [roundHalfUp, show 2 * (m * p) + p = p + m * (2 * p) by ring, Nat.add_mul_div_right _ _ (by omega),
    Nat.div_eq_of_lt (by omega), Nat.zero_add]

theorem roundAway_mul (n : ℤ) (k : ℕ) : roundAway (n * 10 ^ k) (10 ^ k) = n := by
  have hs : (n * 10 ^ k).sign = n.sign := by
    rw [Int.sign_mul, Int.sign_eq_one_of_pos (show (0 : ℤ) < 10 ^ k by positivity), mul_one]
  rw [roundAway, Int.natAbs_mul, Int.natAbs_pow, hs]
  exact (congrArg (fun m : ℕ ↦ n.sign * m) (roundHalfUp_mul n.natAbs (by positivity))).trans (Int.sign_mul_natAbs n)

theorem widen_eq {n : ℤ} {k : ℕ} (scale : ℕ) (h : (n * 10 ^ k).natAbs < limit) :
    rescaled?.widen n scale k = of? (n * 10 ^ k) (scale + k) := by
  induction k generalizing n scale with
  | zero => rw [rescaled?.widen, pow_zero, mul_one, add_zero]
  | succ k ih =>
    have hm : n * 10 ^ (k + 1) = n * 10 * 10 ^ k := by ring
    have hlt : (n * 10).natAbs < limit := by
      rw [hm, Int.natAbs_mul] at h
      exact (Nat.le_mul_of_pos_right _ (by simp)).trans_lt h
    rw [rescaled?.widen, if_pos hlt, ih (scale + 1) (by rwa [← hm]), hm, add_right_comm, add_assoc]

theorem rescaled?_eq_some {c : ℤ} {scale : ℕ} {n : Numeric} (h : (c : ℚ) / 10 ^ scale = n.toDecimal.value) :
    rescaled? c scale n.scale = some n := by
  rw [toDecimal, Decimal.value_ofNat, div_eq_div_iff (by positivity) (by positivity)] at h
  have hc : c * 10 ^ n.scale = n.coefficient * 10 ^ scale := by exact_mod_cast h
  rcases le_or_gt n.scale scale with hs | hs
  · obtain ⟨k, hk⟩ := Nat.exists_eq_add_of_le hs
    have hp : c = n.coefficient * 10 ^ k := by
      rw [hk, pow_add, mul_left_comm, mul_comm] at hc
      exact mul_left_cancel₀ (by positivity) hc
    rw [rescaled?, if_pos hs, hp, hk, Nat.add_sub_cancel_left, Decimal.pow10_eq, roundAway_mul, of?_self]
  · obtain ⟨k, hk⟩ := Nat.exists_eq_add_of_le hs.le
    have hp : c * 10 ^ k = n.coefficient := by
      rw [hk, pow_add, mul_left_comm, mul_comm n.coefficient] at hc
      exact mul_left_cancel₀ (by positivity) hc
    have hlt : (c * 10 ^ k).natAbs < limit := hp ▸ n.natAbs_lt
    rw [rescaled?, if_neg (not_le.2 hs), hk, Nat.add_sub_cancel_left, widen_eq scale hlt, hp, ← hk, of?_self]

end Upsert.Numeric
