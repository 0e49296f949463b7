import Upsert.Proofs.Number.Rounding

namespace Upsert.Numeric

/-- The numbers of at most 96 bits and 28 places. -/
def Held (q : ℚ) : Prop := ∃ n : Numeric, n.toDecimal.value = q

/-- Of the digits `m * 10 ^ r + rest`, of which `places + r` stand behind the point, all up to `m` are read. There is no
room for the next one, `d`, or for any character. -/
structure Cut (m places r rest d : ℕ) : Prop where
  lt : m < limit
  full : maxScale ≤ places ∨ limit ≤ m * 10 + d
  rest_lt : rest < 10 ^ r
  next_le : d * 10 ^ r ≤ rest * 10

def Rounds (m d rounded : ℕ) : Prop :=
  d < 5 ∧ rounded = m ∨ 5 ≤ d ∧ (rounded = m + 1 ∨ m + 1 = limit ∧ rounded = (m + 5) / 10 * 10)

namespace Cut

variable {m places r rest d rounded : ℕ} {n : Numeric}

theorem eq_of_rest_eq_zero (h : Cut m places r rest d) (hz : rest = 0) (hr : Rounds m d rounded) : rounded = m := by
  have hd : d = 0 := by
    have hp : 0 < 10 ^ r := by positivity
    have hn := h.next_le
    rw [hz, Nat.zero_mul] at hn
    exact (Nat.mul_eq_zero.1 (Nat.le_zero.1 hn)).resolve_right hp.ne'
  obtain ⟨-, hm⟩ | ⟨hd', -⟩ := hr
  · exact hm
  · omega

theorem not_held (h : Cut m places r rest d) (hz : rest ≠ 0) :
    (n.coefficient.natAbs : ℚ) / 10 ^ n.scale ≠ (m * 10 ^ r + rest : ℕ) / 10 ^ (places + r) := by
  intro he
  rw [div_eq_div_iff (by positivity) (by positivity)] at he
  have hc : n.coefficient.natAbs * 10 ^ (places + r) = (m * 10 ^ r + rest) * 10 ^ n.scale := by exact_mod_cast he
  have hlt := n.natAbs_lt
  have hs := n.scale_le
  generalize n.coefficient.natAbs = c at hc hlt
  have hp : 0 < 10 ^ r := by positivity
  rcases le_or_gt n.scale places with hle | hle
  · obtain ⟨k, hk⟩ := Nat.exists_eq_add_of_le hle
    have hm : c * 10 ^ k * 10 ^ r = m * 10 ^ r + rest := by
      refine Nat.eq_of_mul_eq_mul_right (show 0 < 10 ^ n.scale by positivity) ?_
      rw [← hc, hk, pow_add, pow_add]
      ring
    have hmod := congrArg (· % 10 ^ r) hm
    simp only [Nat.mul_mod_left, Nat.mul_add_mod_self_right, Nat.mod_eq_of_lt h.rest_lt] at hmod
    exact hz hmod.symm
  · obtain ⟨k, hk⟩ := Nat.exists_eq_add_of_lt hle
    have hm : c * 10 ^ r = (m * 10 ^ r + rest) * 10 * 10 ^ k := by
      refine Nat.eq_of_mul_eq_mul_right (show 0 < 10 ^ places by positivity) ?_
      rw [mul_assoc, ← pow_add, add_comm r, hc, hk, pow_succ, pow_add]
      ring
    have hfull : limit ≤ m * 10 + d := h.full.resolve_left (by rw [maxScale]; omega)
    have hge : limit * 10 ^ r ≤ c * 10 ^ r := by
      calc limit * 10 ^ r ≤ (m * 10 + d) * 10 ^ r := Nat.mul_le_mul_right _ hfull
        _ = m * 10 ^ r * 10 + d * 10 ^ r := by ring
        _ ≤ (m * 10 ^ r + rest) * 10 := by
          have := h.next_le
          omega
        _ ≤ (m * 10 ^ r + rest) * 10 * 10 ^ k := Nat.le_mul_of_pos_right _ (by positivity)
        _ = c * 10 ^ r := hm.symm
    have := Nat.le_of_mul_le_mul_right hge hp
    omega

theorem rounded_bounds (h : Cut m places r rest d) (hz : rest ≠ 0) (hr : Rounds m d rounded) (hr0 : rounded ≠ 0) :
    rounded * 10 ^ r < 10 * (m * 10 ^ r + rest) ∧ m * 10 ^ r + rest < 10 * (rounded * 10 ^ r) := by
  have hlt := h.rest_lt
  have hle := h.next_le
  have hpos := Nat.pos_of_ne_zero hz
  have hp : 0 < 10 ^ r := by positivity
  generalize 10 ^ r = p at hlt hle hp ⊢
  obtain ⟨-, rfl⟩ | ⟨hd, hr⟩ := hr
  · have hm : p ≤ rounded * p := Nat.le_mul_of_pos_left _ (Nat.pos_of_ne_zero hr0)
    omega
  · have hd' : 5 * p ≤ d * p := Nat.mul_le_mul_right _ hd
    obtain rfl | ⟨hm, hr⟩ := hr
    · rw [Nat.succ_mul]
      omega
    · have hl : 50 ≤ m := by
        rw [limit] at hm
        omega
      have hup : rounded * p ≤ (m + 5) * p := Nat.mul_le_mul_right _ (by omega)
      have hdown : m * p ≤ (rounded + 4) * p := Nat.mul_le_mul_right _ (by omega)
      have hbig : 50 * p ≤ m * p := Nat.mul_le_mul_right _ hl
      rw [Nat.add_mul] at hup hdown
      omega

/-- No power of ten makes up for the digits that were left out. -/
theorem rounded_ne (h : Cut m places r rest d) (hz : rest ≠ 0) (hr : Rounds m d rounded) (e : ℤ) :
    (rounded : ℚ) / 10 ^ places ≠ (m * 10 ^ r + rest : ℕ) / 10 ^ (places + r) * 10 ^ e := by
  intro he
  have hn : (0 : ℚ) < (m * 10 ^ r + rest : ℕ) := by exact_mod_cast (by omega)
  have hq : ((rounded * 10 ^ r : ℕ) : ℚ) = (m * 10 ^ r + rest : ℕ) * 10 ^ e := by
    rw [pow_add, div_mul_eq_mul_div, div_eq_div_iff (by positivity) (by positivity), mul_comm ((10 : ℚ) ^ places),
      ← mul_assoc] at he
    rw [Nat.cast_mul, Nat.cast_pow, Nat.cast_ofNat]
    exact mul_right_cancel₀ (by positivity) he
  have hr0 : rounded ≠ 0 := by
    rintro rfl
    rw [Nat.zero_mul, Nat.cast_zero] at hq
    exact absurd hq.symm (by positivity)
  obtain ⟨hlt, hgt⟩ := h.rounded_bounds hz hr hr0
  have hu : (10 : ℚ) ^ e < 10 ^ (1 : ℤ) := by
    have hlt' : ((rounded * 10 ^ r : ℕ) : ℚ) < 10 * (m * 10 ^ r + rest : ℕ) := by exact_mod_cast hlt
    rw [hq, mul_comm (10 : ℚ)] at hlt'
    rw [zpow_one]
    exact lt_of_mul_lt_mul_left hlt' hn.le
  have hl : (10 : ℚ) ^ (-1 : ℤ) < 10 ^ e := by
    have hgt' : ((m * 10 ^ r + rest : ℕ) : ℚ) < 10 * (rounded * 10 ^ r : ℕ) := by exact_mod_cast hgt
    rw [hq, mul_left_comm] at hgt'
    have hone : (1 : ℚ) < 10 * 10 ^ e := lt_of_mul_lt_mul_left (by rwa [mul_one]) hn.le
    rwa [zpow_neg_one, inv_lt_iff_one_lt_mul₀' (by norm_num)]
  have he1 := (zpow_lt_zpow_iff_right₀ (by norm_num)).1 hu
  have he2 := (zpow_lt_zpow_iff_right₀ (by norm_num)).1 hl
  obtain rfl : e = 0 := by omega
  rw [zpow_zero, mul_one] at hq
  have hm : rounded * 10 ^ r = m * 10 ^ r + rest := by exact_mod_cast hq
  have hmod := congrArg (· % 10 ^ r) hm
  simp only [Nat.mul_mod_left, Nat.mul_add_mod_self_right, Nat.mod_eq_of_lt h.rest_lt] at hmod
  exact hz hmod.symm

theorem value_eq_iff (h : Cut m places r rest d) (hr : Rounds m d rounded) {sign base : ℚ} (hs : sign = 1 ∨ sign = -1)
    (hn : n.toDecimal.value = sign * (rounded / 10 ^ places))
    (hb : base = sign * ((m * 10 ^ r + rest : ℕ) / 10 ^ (places + r))) (e : ℤ) :
    n.toDecimal.value = base * 10 ^ e ↔ Held (base * 10 ^ e) ∧ base = base * 10 ^ e := by
  have hs0 : sign ≠ 0 := by obtain rfl | rfl := hs <;> norm_num
  by_cases hz : rest = 0
  · have hv : n.toDecimal.value = base := by
      rw [hn, hb, h.eq_of_rest_eq_zero hz hr, hz, Nat.add_zero, pow_add]
      push_cast
      rw [mul_div_mul_right _ _ (by positivity)]
    rw [hv]
    exact ⟨fun he ↦ ⟨⟨n, hv.trans he⟩, he⟩, And.right⟩
  · refine ⟨fun he ↦ ?_, ?_⟩
    · rw [hn, hb, mul_assoc] at he
      exact absurd (mul_left_cancel₀ hs0 he) (h.rounded_ne hz hr e)
    · rintro ⟨⟨n', hn'⟩, he⟩
      have habs : |n'.toDecimal.value| = n'.coefficient.natAbs / 10 ^ n'.scale := by
        rw [toDecimal, Decimal.value_ofNat, abs_div, abs_of_pos (show (0 : ℚ) < 10 ^ n'.scale by positivity), Nat.cast_natAbs,
          Int.cast_abs]
      have hbase : |base| = (m * 10 ^ r + rest : ℕ) / 10 ^ (places + r) := by
        have hsign : |sign| = 1 := by obtain rfl | rfl := hs <;> norm_num
        rw [hb, abs_mul, hsign, one_mul, abs_of_nonneg (by positivity)]
      rw [hn', ← he, hbase] at habs
      exact absurd habs.symm (h.not_held hz)

end Cut

end Upsert.Numeric
