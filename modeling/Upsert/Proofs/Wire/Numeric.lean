import Mathlib.Data.List.DropRight
import Upsert.Proofs.Number.Rounding
import Upsert.Proofs.Except
import Upsert.Proofs.Wire.Octets

namespace Upsert

namespace Numeric

def ofGroups (gs : List ℕ) : ℕ := gs.foldl (fun n g ↦ n * 10000 + g) 0

theorem foldl_groups (gs : List ℕ) (n : ℕ) :
    gs.foldl (fun n g ↦ n * 10000 + g) n = n * 10000 ^ gs.length + ofGroups gs := by
  induction gs generalizing n with
  | nil => simp [ofGroups]
  | cons g gs ih =>
    rw [ofGroups, List.foldl_cons, List.foldl_cons, ih, ih (0 * 10000 + g), List.length_cons, pow_succ]
    ring

theorem ofGroups_append (gs hs : List ℕ) : ofGroups (gs ++ hs) = ofGroups gs * 10000 ^ hs.length + ofGroups hs := by
  rw [ofGroups, List.foldl_append, foldl_groups]
  rfl

theorem ofGroups_cons (g : ℕ) (gs : List ℕ) : ofGroups (g :: gs) = g * 10000 ^ gs.length + ofGroups gs := by
  have h := ofGroups_append [g] gs
  simpa [ofGroups] using h

theorem ofGroups_groups {fuel n : ℕ} (h : n < 10000 ^ fuel) : ofGroups (groups fuel n) = n := by
  induction fuel generalizing n with
  | zero =>
    obtain rfl : n = 0 := by simpa using h
    rfl
  | succ fuel ih =>
    rw [groups]
    split
    · next hn => exact hn.symm
    · have hq : n / 10000 < 10000 ^ fuel := by
        rw [Nat.div_lt_iff_lt_mul (by norm_num), ← pow_succ]
        exact h
      rw [ofGroups_append, ih hq, ofGroups_cons, List.length_singleton, List.length_nil, pow_zero, pow_one, mul_one]
      exact Nat.div_add_mod' n 10000

theorem lt_of_mem_groups {fuel n g : ℕ} (h : g ∈ groups fuel n) : g < 10000 := by
  induction fuel generalizing n with
  | zero => cases h
  | succ fuel ih =>
    rw [groups] at h
    split at h
    · cases h
    · rcases List.mem_append.1 h with h | h
      · exact ih h
      · rw [List.mem_singleton.1 h]
        exact Nat.mod_lt n (by norm_num)

theorem length_groups_le (fuel n : ℕ) : (groups fuel n).length ≤ fuel := by
  induction fuel generalizing n with
  | zero => exact le_rfl
  | succ fuel ih =>
    rw [groups]
    split
    · exact Nat.zero_le _
    · rw [List.length_append, List.length_singleton]
      exact Nat.succ_le_succ (ih _)

theorem exists_append_zeros (gs : List ℕ) : ∃ n, gs = dropTrailingZeros gs ++ List.replicate n 0 := by
  have h := List.takeWhile_append_dropWhile (p := (· == 0)) (l := gs.reverse)
  have hz : gs.reverse.takeWhile (· == 0) = List.replicate (gs.reverse.takeWhile (· == 0)).length 0 :=
    List.eq_replicate_of_mem fun g hg ↦ by simpa using List.mem_takeWhile_imp hg
  refine ⟨(gs.reverse.takeWhile (· == 0)).length, ?_⟩
  rw [dropTrailingZeros, ← List.reverse_replicate, ← List.reverse_append, ← hz, h, List.reverse_reverse]

theorem dropTrailingZeros_sublist (gs : List ℕ) : (dropTrailingZeros gs).Sublist gs := by
  obtain ⟨n, hn⟩ := exists_append_zeros gs
  nth_rewrite 2 [hn]
  exact List.sublist_append_left _ _

theorem roundHalfEven_mul {p : ℕ} (m : ℕ) (hp : 0 < p) : roundHalfEven (m * p) p = m := by
  rw [roundHalfEven, Nat.mul_div_cancel _ hp, Nat.mul_mod_left, if_pos (by omega)]

def sumValue (sum : ℕ × ℕ) : ℚ := sum.1 / 10 ^ sum.2

theorem exists_drop {m x scale left : ℕ} (hm : m < limit) (hx : x ≤ scale) (hl : left ≤ scale) (hr : scale < left + x) :
    ∃ sum, fitted?.drop (m * 10 ^ x) scale left = some sum ∧ sum.2 ≤ scale ∧ sumValue sum = m * 10 ^ x / 10 ^ scale := by
  induction left with
  | zero => omega
  | succ left ih =>
    obtain ⟨k, hk⟩ : ∃ k, scale = left + k := ⟨scale - left, by omega⟩
    obtain ⟨j, rfl⟩ : ∃ j, x = j + k := ⟨x - k, by omega⟩
    have hround : roundHalfEven (m * 10 ^ (j + k)) (pow10 (scale - left)) = m * 10 ^ j := by
      rw [hk, Nat.add_sub_cancel_left, pow_add, ← mul_assoc]
      exact roundHalfEven_mul _ (by positivity)
    rw [fitted?.drop, hround]
    split
    · refine ⟨_, rfl, by omega, ?_⟩
      rw [sumValue, hk, pow_add, pow_add]
      push_cast
      field_simp
    · refine ih (by omega) ?_
      have hj : j ≠ 0 := by
        rintro rfl
        simp_all
      omega

theorem exists_fitted {m x scale : ℕ} (hm : m < limit) (hx : x ≤ scale) :
    ∃ sum, fitted? (m * 10 ^ x) scale = some sum ∧ sum.2 ≤ scale ∧ sumValue sum = m * 10 ^ x / 10 ^ scale := by
  by_cases hf : m * 10 ^ x < limit
  · refine ⟨(m * 10 ^ x, scale), ?_, le_rfl, by rw [sumValue]; push_cast; rfl⟩
    cases scale <;> rw [fitted?, if_pos hf]
  · cases scale with
    | zero =>
      obtain rfl : x = 0 := by omega
      simp_all
    | succ scale =>
      have hz : x ≠ 0 := by
        rintro rfl
        simp_all
      rw [fitted?, if_neg hf]
      exact exists_drop hm hx le_rfl (by omega)

theorem exists_addScaled {sum : ℕ × ℕ} {n place m x : ℕ} (hm : m < limit) (hx : x ≤ place) (hs : sum.2 ≤ place)
    (h : sumValue sum + n / 10 ^ place = m / 10 ^ x) :
    ∃ sum', addScaled? sum n place = some sum' ∧ sum'.2 ≤ place ∧ sumValue sum' = m / 10 ^ x := by
  obtain ⟨a, s⟩ := sum
  obtain ⟨j, rfl⟩ : ∃ j, place = s + j := ⟨place - s, by simp at hs; omega⟩
  obtain ⟨k, hk⟩ : ∃ k, s + j = x + k := ⟨s + j - x, by omega⟩
  have ha : a * 10 ^ j + n = m * 10 ^ k := by
    have hq : ((a * 10 ^ j + n : ℕ) : ℚ) / 10 ^ (s + j) = (m * 10 ^ k : ℕ) / 10 ^ (s + j) := by
      push_cast
      nth_rewrite 2 [hk]
      rw [pow_add _ x k, mul_div_mul_right _ _ (by positivity), ← h, sumValue, add_div, pow_add,
        mul_div_mul_right _ _ (by positivity)]
    have hp : (10 : ℚ) ^ (s + j) ≠ 0 := by positivity
    exact_mod_cast (div_left_inj' hp).1 hq
  obtain ⟨sum', he, hle, hv⟩ := exists_fitted hm (show k ≤ s + j by omega)
  refine ⟨sum', ?_, hle, ?_⟩
  · rw [addScaled?]
    simp only [Nat.max_eq_right (Nat.le_add_right s j), Nat.add_sub_cancel_left, Nat.sub_self, Decimal.pow10_eq, pow_zero,
      mul_one, ha, he]
  · rw [hv, hk, pow_add, mul_div_mul_right _ _ (by positivity)]

theorem exists_partial {sum : ℕ × ℕ} {g place m x : ℕ} (hm : m < limit) (hx : place ≤ x) (hs : sum.2 ≤ place)
    (h : sumValue sum + g / 10 ^ place ≤ m / 10 ^ x) :
    ∃ m', m' < limit ∧ sumValue sum + g / 10 ^ place = m' / 10 ^ place := by
  obtain ⟨a, s⟩ := sum
  obtain ⟨j, rfl⟩ : ∃ j, place = s + j := ⟨place - s, by simp at hs; omega⟩
  have hv : sumValue (a, s) + g / 10 ^ (s + j) = (a * 10 ^ j + g : ℕ) / 10 ^ (s + j) := by
    push_cast
    rw [sumValue, add_div, pow_add, mul_div_mul_right _ _ (by positivity)]
  refine ⟨a * 10 ^ j + g, ?_, hv⟩
  have hle : (a * 10 ^ j + g : ℕ) ≤ m := by
    have hpow : (10 : ℚ) ^ (s + j) ≤ 10 ^ x := pow_le_pow_right₀ (by norm_num) hx
    have hq : ((a * 10 ^ j + g : ℕ) : ℚ) / 10 ^ (s + j) ≤ m / 10 ^ (s + j) := by
      refine (hv.symm.le.trans h).trans ?_
      gcongr
    exact_mod_cast (div_le_div_iff_of_pos_right (by positivity)).1 hq
  omega

theorem ofGroups_cons_div (g k : ℕ) (gs : List ℕ) : (ofGroups (g :: gs) : ℚ) / 10000 ^ (k + (gs.length + 1)) =
    g / 10 ^ (4 * (k + 1)) + ofGroups gs / 10000 ^ (k + 1 + gs.length) := by
  have hp : (10 : ℚ) ^ (4 * (k + 1)) = 10000 ^ (k + 1) := by
    rw [pow_mul]
    norm_num
  have hl : k + (gs.length + 1) = k + 1 + gs.length := by ring
  rw [ofGroups_cons, hp, hl, pow_add _ (k + 1)]
  push_cast
  rw [add_div, mul_div_mul_right _ _ (by positivity)]

/-- The groups stand at `10000 ^ -(k + 1)` and below, the last of them at most three places past those of a number of
96 bits. The sum is that number as soon as they are all in it, and before that it has fewer digits. -/
theorem exists_fractionSum {gs : List ℕ} {sum : ℕ × ℕ} {k m x : ℕ} (hm : m < limit) (hk : k + gs.length ≤ 7)
    (hl : 4 * (k + gs.length) ≤ x + 3) (hx : x ≤ 4 * (k + gs.length)) (hs : sum.2 ≤ 4 * k)
    (h : sumValue sum + ofGroups gs / 10000 ^ (k + gs.length) = m / 10 ^ x) :
    ∃ sum', fractionSum? sum (4 * (k + 1)) gs = some sum' ∧ sumValue sum' = m / 10 ^ x := by
  induction gs generalizing sum k with
  | nil => exact ⟨sum, rfl, by simpa [ofGroups] using h⟩
  | cons g gs ih =>
    rw [List.length_cons] at hk hl hx h
    rw [ofGroups_cons_div, ← add_assoc] at h
    rw [fractionSum?, if_pos (by omega)]
    by_cases hz : g = 0
    · rw [if_pos hz]
      refine ih (by omega) (by omega) (by omega) (by omega) ?_
      rw [← h, hz, Nat.cast_zero, zero_div, add_zero]
    · have hpartial : ∃ m' x', m' < limit ∧ x' ≤ 4 * (k + 1) ∧
          sumValue sum + g / 10 ^ (4 * (k + 1)) = m' / 10 ^ x' := by
        cases gs with
        | nil => exact ⟨m, x, hm, by simpa using hx, by simpa [ofGroups] using h⟩
        | cons g' gs =>
          rw [List.length_cons] at hl
          have hle : sumValue sum + g / 10 ^ (4 * (k + 1)) ≤ m / 10 ^ x := by
            rw [← h]
            exact le_add_of_nonneg_right (by positivity)
          obtain ⟨m', hm', hv⟩ := exists_partial hm (by omega) (by omega) hle
          exact ⟨m', _, hm', le_rfl, hv⟩
      obtain ⟨m', x', hm', hx', hv⟩ := hpartial
      obtain ⟨sum', he, hle, hv'⟩ := exists_addScaled hm' hx' (by omega) hv
      rw [if_neg hz, he]
      refine ih (by omega) (by omega) (by omega) hle ?_
      rw [hv', ← hv, h]

theorem fractionSum?_zeros (sum : ℕ × ℕ) (place n : ℕ) : fractionSum? sum place (List.replicate n 0) = some sum := by
  induction n generalizing place with
  | zero => rfl
  | succ n ih =>
    rw [List.replicate_succ, fractionSum?]
    split
    · exact ih (place + 4)
    · rw [if_neg (by omega)]
      exact ih (place + 4)

theorem fractionSum?_append_zeros (sum : ℕ × ℕ) (place n : ℕ) (gs : List ℕ) :
    fractionSum? sum place (gs ++ List.replicate n 0) = fractionSum? sum place gs := by
  induction gs generalizing sum place with
  | nil => exact fractionSum?_zeros sum place n
  | cons g gs ih => simp only [List.cons_append, fractionSum?, ih]

theorem fractionSum?_dropTrailingZeros (sum : ℕ × ℕ) (place : ℕ) (gs : List ℕ) :
    fractionSum? sum place (dropTrailingZeros gs) = fractionSum? sum place gs := by
  obtain ⟨n, hn⟩ := exists_append_zeros gs
  nth_rewrite 2 [hn]
  exact (fractionSum?_append_zeros sum place n _).symm

theorem wholeSum?_eq_some {gs : List ℕ} (h : ofGroups gs < limit) : wholeSum? gs 0 = some (ofGroups gs) := by
  have hw : wholeSum? gs 0 = if ofGroups gs = 0 then some 0
      else if ofGroups gs * pow10 (4 * 0) < limit then some (ofGroups gs * pow10 (4 * 0)) else none := rfl
  rw [hw, Nat.mul_zero, Decimal.pow10_eq, pow_zero, mul_one, if_pos h]
  split
  · next hz => rw [hz]
  · rfl

theorem rescaled?_signed {n : Numeric} {sum : ℕ × ℕ} (h : sumValue sum = n.coefficient.natAbs / 10 ^ n.scale) :
    rescaled? (Text.signed (decide (n.coefficient < 0)) sum.1) sum.2 (min n.scale maxScale) = some n := by
  have hc := Decimal.cast_signed (decide (n.coefficient < 0)) n.coefficient.natAbs
  rw [Text.signed_natAbs] at hc
  rw [Nat.min_eq_left (show n.scale ≤ maxScale from n.scale_le)]
  refine rescaled?_eq_some ?_
  rw [toDecimal, Decimal.value_ofNat, Decimal.cast_signed, hc, mul_div_assoc, mul_div_assoc, ← h]
  rfl

variable {n : Numeric} {a b gs : List ℕ} {k : ℕ}

theorem ofGroups?_whole (hp : b.length ≤ 7) (hl : 4 * b.length ≤ n.scale + 3) (hx : n.scale ≤ 4 * b.length)
    (h : (ofGroups (a ++ b) : ℚ) / 10000 ^ b.length = n.coefficient.natAbs / 10 ^ n.scale) :
    ofGroups? (decide (n.coefficient < 0)) (a.length - 1) n.scale (a ++ dropTrailingZeros b) = some n := by
  have hv : (ofGroups a : ℚ) + ofGroups b / 10000 ^ b.length = n.coefficient.natAbs / 10 ^ n.scale := by
    rw [← h, ofGroups_append]
    push_cast
    field_simp
  have hw : ofGroups a < limit := by
    have hle : (ofGroups a : ℚ) ≤ n.coefficient.natAbs := by
      calc (ofGroups a : ℚ) ≤ n.coefficient.natAbs / 10 ^ n.scale := by
            rw [← hv]
            exact le_add_of_nonneg_right (by positivity)
        _ ≤ n.coefficient.natAbs := div_le_self (by positivity) (one_le_pow₀ (by norm_num))
    have := n.natAbs_lt
    have hle' : ofGroups a ≤ n.coefficient.natAbs := by exact_mod_cast hle
    omega
  have hsum : sumValue (ofGroups a, 0) + ofGroups b / 10000 ^ (0 + b.length) = n.coefficient.natAbs / 10 ^ n.scale := by
    simpa [sumValue] using hv
  obtain ⟨sum, he, hs⟩ := exists_fractionSum n.natAbs_lt (by omega) (by omega) (by omega) le_rfl hsum
  have hc : ((a.length : ℤ) - 1 + 1).toNat = a.length := by omega
  have hk : (-((a.length : ℤ) - 1 + 1)).toNat = 0 := by omega
  have hm : a.length - (a ++ dropTrailingZeros b).length = 0 := by simp
  simp only [ofGroups?, hc, hk, hm, List.take_left, List.drop_left, fractionSum?_dropTrailingZeros, wholeSum?_eq_some hw,
    he, Option.bind_eq_bind, Option.bind_some]
  exact rescaled?_signed hs

theorem ofGroups?_fraction (hp : k + gs.length ≤ 7) (hl : 4 * (k + gs.length) ≤ n.scale + 3)
    (hx : n.scale ≤ 4 * (k + gs.length))
    (h : (ofGroups gs : ℚ) / 10000 ^ (k + gs.length) = n.coefficient.natAbs / 10 ^ n.scale) :
    ofGroups? (decide (n.coefficient < 0)) (-k - 1) n.scale gs = some n := by
  have hsum : sumValue (0, 0) + ofGroups gs / 10000 ^ (k + gs.length) = n.coefficient.natAbs / 10 ^ n.scale := by
    simpa [sumValue] using h
  obtain ⟨sum, he, hs⟩ := exists_fractionSum n.natAbs_lt hp hl hx (Nat.zero_le _) hsum
  have hc : (-(k : ℤ) - 1 + 1).toNat = 0 := by omega
  have hk : (-(-(k : ℤ) - 1 + 1)).toNat = k := by omega
  have hw : wholeSum? [] 0 = some 0 := rfl
  simp only [ofGroups?, hc, hk, List.take_zero, List.drop_zero, Nat.zero_sub, hw, he, Option.bind_eq_bind, Option.bind_some]
  exact rescaled?_signed hs

/-- What is sent for a number that is not zero: groups, of which the first has the weight `10000 ^ weight`. -/
def packed (weight : ℤ) (negative : Bool) (scale : ℕ) (gs : List ℕ) : Octets :=
  Octets.ofInt 2 gs.length ++ Octets.ofInt 2 weight ++ Octets.ofInt 2 (if negative then 0x4000 else 0) ++
    Octets.ofInt 2 scale ++ gs.flatMap fun (g : ℕ) ↦ Octets.ofInt 2 g

theorem ofGroups_places (n : Numeric) (places : ℕ) (hl : n.scale ≤ 4 * places) (hh : 4 * places ≤ n.scale + 3) :
    (ofGroups (groups 16 (n.coefficient.natAbs * pow10 (4 * places - n.scale))) : ℚ) / 10000 ^ places =
      n.coefficient.natAbs / 10 ^ n.scale := by
  obtain ⟨k, hk⟩ := Nat.exists_eq_add_of_le hl
  have hlt : n.coefficient.natAbs * 10 ^ k < 10000 ^ 16 := by
    have hp : 10 ^ k ≤ 10 ^ 3 := Nat.pow_le_pow_right (by norm_num) (by omega)
    calc n.coefficient.natAbs * 10 ^ k ≤ limit * 10 ^ 3 := Nat.mul_le_mul n.natAbs_lt.le hp
      _ < 10000 ^ 16 := by norm_num [limit]
  have hq : (10000 : ℚ) ^ places = 10 ^ n.scale * 10 ^ k := by
    rw [← pow_add, ← hk, pow_mul]
    norm_num
  rw [hk, Nat.add_sub_cancel_left, Decimal.pow10_eq, ofGroups_groups hlt, hq, Nat.cast_mul, Nat.cast_pow, Nat.cast_ofNat,
    mul_div_mul_right _ _ (by positivity)]

theorem exists_packed (hc : n.coefficient ≠ 0) :
    ∃ (weight : ℤ) (gs : List ℕ), n.encode = packed weight (decide (n.coefficient < 0)) n.scale gs ∧
      ofGroups? (decide (n.coefficient < 0)) weight n.scale gs = some n ∧
      -8 ≤ weight ∧ weight ≤ 16 ∧ gs.length ≤ 16 ∧ ∀ g ∈ gs, g < 10000 := by
  have hs := n.scale_le
  let places := (n.scale + 3) / 4
  let gs := groups 16 (n.coefficient.natAbs * pow10 (4 * places - n.scale))
  let weight : ℤ := gs.length - places - 1
  let whole := (weight + 1).toNat
  let sent := if weight < 0 then gs else gs.take whole ++ dropTrailingZeros (gs.drop whole)
  have hlen : gs.length ≤ 16 := length_groups_le _ _
  have hv := n.ofGroups_places places (by omega) (by omega)
  have he : n.encode = packed weight (decide (n.coefficient < 0)) n.scale sent := by
    rw [encode, if_neg hc]
    simp only [packed, decide_eq_true_eq]
    rfl
  have hsub : sent.Sublist gs := by
    by_cases hw : weight < 0
    · exact (if_pos hw : sent = gs) ▸ List.Sublist.refl gs
    · have hg : sent = gs.take whole ++ dropTrailingZeros (gs.drop whole) := if_neg hw
      have hd := (dropTrailingZeros_sublist (gs.drop whole)).append_left (gs.take whole)
      rwa [List.take_append_drop, ← hg] at hd
  refine ⟨weight, sent, he, ?_, by omega, by omega, hsub.length_le.trans hlen,
    fun g hg ↦ lt_of_mem_groups (hsub.subset hg)⟩
  rcases le_or_gt gs.length places with hp | hp
  · obtain ⟨k, hk⟩ : ∃ k, places = k + gs.length := ⟨places - gs.length, by omega⟩
    have hw : weight = -k - 1 := by omega
    have hg : sent = gs := if_pos (by omega)
    rw [hw, hg]
    exact ofGroups?_fraction (by omega) (by omega) (by omega) (by rw [← hk]; exact hv)
  · have hw : weight = (gs.take whole).length - 1 := by rw [List.length_take]; omega
    have hb : (gs.drop whole).length = places := by rw [List.length_drop]; omega
    have hg : sent = gs.take whole ++ dropTrailingZeros (gs.drop whole) := if_neg (by omega)
    rw [hw, hg]
    refine ofGroups?_whole (by omega) (by omega) (by omega) ?_
    rw [List.take_append_drop, hb]
    exact hv

end Numeric

namespace Value

theorem takeGroups_flatMap {gs : List ℕ} (hg : ∀ g ∈ gs, g < 10000) :
    takeGroups gs.length (gs.flatMap fun (g : ℕ) ↦ Octets.ofInt 2 g) = .ok gs := by
  induction gs with
  | nil => rfl
  | cons g gs ih =>
    have hp : (pow2 (8 * 2) : ℤ) = 65536 := by decide
    have hlt := hg g List.mem_cons_self
    have ht := takeNat_ofInt 2 g (by omega) (by omega) (gs.flatMap fun (g : ℕ) ↦ Octets.ofInt 2 g)
    have hgs := ih fun g hg' ↦ hg g (List.mem_cons_of_mem _ hg')
    simp only [List.length_cons, List.flatMap_cons, takeGroups, ht, hgs, Except.ok_bind, Int.toNat_natCast]
    rfl

theorem decodeNumeric_packed {weight : ℤ} {negative : Bool} {scale : ℕ} {gs : List ℕ} (hl : -8 ≤ weight) (hh : weight ≤ 16)
    (hs : scale ≤ 28) (hn : gs.length ≤ 16) (hg : ∀ g ∈ gs, g < 10000) :
    decodeNumeric (Numeric.packed weight negative scale gs) =
      (Numeric.ofGroups? negative weight scale gs).elim (.error .decimal) fun n ↦ .ok n.toDecimal := by
  have hp : (pow2 (8 * 2) : ℤ) = 65536 := by decide
  have hcount := takeNat_ofInt 2 gs.length (by omega) (by omega)
  have hweight := takeInt_ofInt 2 weight (by omega) (by omega)
  have hsign := takeNat_ofInt 2 (if negative then 0x4000 else 0) (by split <;> omega) (by split <;> omega)
  have hscale := takeNat_ofInt 2 scale (by omega) (by omega)
  simp only [decodeNumeric, Numeric.packed, List.append_assoc, hcount, hweight, hsign, hscale, Except.ok_bind, Int.toNat_natCast,
    takeGroups_flatMap hg]
  cases negative <;> rfl

theorem decodeNumeric_encode (n : Numeric) :
    decodeNumeric n.encode = .ok (if n.coefficient = 0 then ⟨0, 0⟩ else n.toDecimal) := by
  by_cases hc : n.coefficient = 0
  · have hz : List.replicate 8 0 = Numeric.packed 0 false 0 [] := by decide
    rw [Numeric.encode, if_pos hc, if_pos hc, hz,
      decodeNumeric_packed (by decide) (by decide) (by decide) (by decide) (by simp)]
    rfl
  · obtain ⟨weight, gs, he, ho, hl, hh, hn, hg⟩ := Numeric.exists_packed hc
    rw [he, decodeNumeric_packed hl hh n.scale_le hn hg, ho, if_neg hc]
    rfl

theorem exists_decodeNumeric (n : Numeric) : ∃ d, decodeNumeric n.encode = .ok d ∧ d.value = n.toDecimal.value := by
  refine ⟨_, decodeNumeric_encode n, ?_⟩
  split
  · next hc => simp [Decimal.value, Numeric.toDecimal, hc]
  · rfl

end Value

end Upsert
