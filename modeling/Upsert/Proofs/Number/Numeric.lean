import Upsert.Proofs.Number.Cut
import Upsert.Proofs.Number.Scan

namespace Upsert

namespace Decimal

open Text

def base? (s : String) : Option ℚ := (readBase? (baseChars s)).map fun (digits, places) ↦ value ⟨digits, places⟩

theorem Spells.base? {s : String} {digits exponent : ℤ} {places : ℕ} (h : Spells s digits places exponent) :
    base? s = some (value ⟨digits, places⟩) := by
  rw [Decimal.base?, h.base]
  rfl

def fractionChars (cs : List Char) : List Char := (cs.dropWhile (· ≠ '.')).drop 1

variable {cs body whole fraction : List Char} {negative : Bool}

theorem fractionChars_eq (hs : splitSign cs = (negative, body)) (hp : Parts body whole fraction)
    (hw : ∀ c ∈ whole, isDigit c ∨ c = '_') : fractionChars cs = fraction := by
  obtain ⟨sign, rfl, hsign⟩ := exists_sign hs
  have hne : ∀ c ∈ sign ++ whole, (decide (c ≠ '.')) = true := by
    intro c hc
    rcases List.mem_append.1 hc with hc | hc
    · obtain rfl | rfl := hsign c hc <;> decide
    · obtain hd | rfl := hw c hc
      · simpa using isDigit_ne_point hd
      · decide
  obtain ⟨rfl, rfl⟩ | rfl := hp
  · rw [fractionChars, List.dropWhile_eq_nil_iff.2 hne, List.drop_nil]
  · rw [fractionChars, ← List.append_assoc, List.dropWhile_append_of_pos hne, List.dropWhile_cons_of_neg (by simp)]
    rfl

end Decimal

namespace Numeric

open Text

theorem limit_pos : 0 < limit := by decide

/-- The digits before an exponent fit 96 bits, and nothing follows the twenty-eighth place. -/
def Roomy (s : String) : Prop :=
  ∃ digits places, Decimal.readBase? (Decimal.baseChars s) = some (digits, places) ∧ digits.natAbs < limit ∧
    (Decimal.fractionChars (Decimal.baseChars s)).dropLast.countP (· ≠ '_') < maxScale

variable {cs body whole fraction tail : List Char} {negative : Bool} {n : Numeric}

theorem readPlain?_eq (h : splitSign cs = (negative, body)) : readPlain? cs = Scan.run? { negative := negative } body := by
  obtain ⟨rfl, rfl⟩ | ⟨rfl, rfl⟩ | ⟨rfl, rfl, hm, hp⟩ := splitSign_cases h
  · rfl
  · rfl
  · rw [readPlain?.eq_def]
    split
    · exact absurd rfl (hm _)
    · exact absurd rfl (hp _)
    · rfl

namespace Scan

def atPoint (negative : Bool) (whole : List Char) : Scan :=
  { pushAll { negative := negative } whole with point := true }

theorem run?_parts (hp : Decimal.Parts body whole fraction) (hcs : ∀ c ∈ whole ++ fraction, isDigit c ∨ c = '_')
    (ht : ∀ c ∈ tail.head?, Decimal.isExponentMark c) (h : run? { negative := negative } (body ++ tail) = some n) :
    (atPoint negative whole).Through fraction tail n ∨
      (∃ front c back, (atPoint negative whole).Stopped fraction n front c back) ∧
        ∀ more, run? { negative := negative } (body ++ more) = some n := by
  have hw : ∀ c ∈ whole, isDigit c ∨ c = '_' := fun c hc ↦ hcs c (List.mem_append_left _ hc)
  have hf : ∀ c ∈ fraction, isDigit c ∨ c = '_' := fun c hc ↦ hcs c (List.mem_append_right _ hc)
  obtain ⟨rfl, rfl⟩ | rfl := hp
  · obtain ⟨hr, hm⟩ := run?_whole rfl hw h
    rw [hr] at h
    cases tail with
    | nil => exact .inl ⟨rfl, h, hm limit_pos, by simp⟩
    | cons c tail =>
      rw [run?_mark (ht c rfl)] at h
      cases h
  · rw [List.append_assoc] at h
    obtain ⟨hr, hm⟩ := run?_whole rfl hw h
    have hpoint : ∀ more, (pushAll { negative := negative } whole).run? ('.' :: more) = (atPoint negative whole).run? more := by
      intro more
      have hd : digit? '.' = none := by decide
      rw [run?]
      simp [hd, atPoint]
    rw [hr, List.cons_append, hpoint] at h
    have hl : (atPoint negative whole).mantissa < limit := hm limit_pos
    obtain h | ⟨front, c, back, hs⟩ := run?_fraction hf ht hl h
    · exact .inl h
    · refine .inr ⟨⟨front, c, back, hs⟩, fun more ↦ ?_⟩
      rw [List.append_assoc, hr, List.cons_append, hpoint, hs.run]

variable {digits : ℤ} {places : ℕ}

@[simp] theorem atPoint_negative : (atPoint negative whole).negative = negative := pushAll_negative

theorem atPoint_mantissa (negative : Bool) (whole fraction : List Char) : ((atPoint negative whole).pushAll fraction).mantissa =
    ofDigits ((whole ++ fraction).filter isDigit) := by
  rw [pushAll_mantissa, atPoint, pushAll_mantissa, List.filter_append, ofDigits_append, ← List.countP_eq_length_filter]
  simp

theorem atPoint_scale (negative : Bool) (whole fraction : List Char) : ((atPoint negative whole).pushAll fraction).scale = fraction.countP isDigit := by
  rw [pushAll_scale rfl, atPoint, pushAll_scale_whole rfl rfl, Nat.zero_add]

theorem result?_eq_some {s : Scan} (h : s.result? = some n) :
    n.coefficient = signed s.negative s.mantissa ∧ n.scale = s.scale := by
  rw [result?] at h
  split at h
  · exact of?_eq_some h
  · cases h

theorem value_of_result? {s : Scan} (h : s.result? = some n) :
    n.toDecimal.value = signed s.negative 1 * (s.mantissa / 10 ^ s.scale) := by
  obtain ⟨hn, hs⟩ := result?_eq_some h
  rw [toDecimal, Decimal.value_ofNat, hn, hs, Decimal.cast_signed, mul_div_assoc]

theorem exists_rounds {s : Scan} {c : Char} (hc : isDigit c ∨ c = '_') (hl : s.mantissa < limit) (h : s.rounded? c = some n) :
    ∃ rounded, Rounds s.mantissa ((digit? c).getD 0) rounded ∧
      n.toDecimal.value = signed s.negative 1 * (rounded / 10 ^ s.scale) := by
  let up : Scan := { s with mantissa := s.mantissa + 1 }
  let shorter : Scan := { s with mantissa := (s.mantissa + 5) / 10, scale := s.scale - 1 }
  have hround : ∀ d, (if d < 5 then s.result? else if up.mantissa < limit then up.result?
      else if s.scale = 0 then none else shorter.result?) = some n →
      ∃ rounded, Rounds s.mantissa d rounded ∧ n.toDecimal.value = signed s.negative 1 * (rounded / 10 ^ s.scale) := by
    intro d h
    split at h
    · next hd => exact ⟨_, .inl ⟨hd, rfl⟩, value_of_result? h⟩
    · next hd =>
      have hd := not_lt.1 hd
      split at h
      · exact ⟨_, .inr ⟨hd, .inl rfl⟩, value_of_result? h⟩
      · next hup =>
        have hup := not_lt.1 hup
        split at h
        · cases h
        · next hs =>
          obtain ⟨k, hk⟩ := Nat.exists_eq_succ_of_ne_zero hs
          refine ⟨_, .inr ⟨hd, .inr ⟨Nat.le_antisymm hl hup, rfl⟩⟩, (value_of_result? h).trans ?_⟩
          have hp : shorter.scale = k := by
            change s.scale - 1 = k
            omega
          rw [hp, hk, Nat.cast_mul, Nat.succ_eq_add_one, pow_succ, Nat.cast_ofNat, mul_div_mul_right _ _ (by norm_num)]
  rw [rounded?] at h
  split at h
  · next hu =>
    have hz : (digit? c).getD 0 = 0 := by
      obtain rfl | ⟨rfl, -⟩ := hu <;> rfl
    rw [hz]
    exact hround 0 h
  · next hu =>
    obtain ⟨d, hd, h⟩ := Option.bind_eq_some_iff.1 h
    rw [hd]
    exact hround d h

theorem Stopped.exists_cut {front back : List Char} {c : Char} (h : (atPoint negative whole).Stopped fraction n front c back)
    (hf : ∀ c ∈ fraction, isDigit c ∨ c = '_') :
    ∃ m places r rest d rounded, Cut m places r rest d ∧ Rounds m d rounded ∧
      ofDigits ((whole ++ fraction).filter isDigit) = m * 10 ^ r + rest ∧ fraction.countP isDigit = places + r ∧
      n.toDecimal.value = signed negative 1 * (rounded / 10 ^ places) := by
  have hc : isDigit c ∨ c = '_' := hf c (by simp [h.split])
  have hn : ((atPoint negative whole).pushAll front).negative = negative := by simp
  obtain ⟨rounded, hr, hv⟩ := exists_rounds hc h.lt h.rounded
  have hscale := atPoint_scale negative whole front
  have hmantissa := atPoint_mantissa negative whole front
  rw [hn] at hv
  refine ⟨_, _, (c :: back).countP isDigit, ofDigits ((c :: back).filter isDigit), _, rounded, ⟨h.lt, ?_, ?_, ?_⟩, hr, ?_, ?_, hv⟩
  · obtain ⟨-, hs | ⟨d, hd, hm⟩⟩ := h.full
    · exact .inl hs
    · exact .inr (by rwa [hd, Option.getD_some])
  · rw [List.countP_eq_length_filter]
    exact ofDigits_lt _
  · cases hd : digit? c with
    | none => simp
    | some d =>
      have hp : isDigit c := by rw [isDigit, hd]; rfl
      rw [List.filter_cons_of_pos hp, ofDigits_cons, hd, List.countP_cons_of_pos hp, List.countP_eq_length_filter, pow_succ,
        Option.getD_some, Nat.add_mul, Nat.mul_assoc]
      exact Nat.le_add_right _ _
  · rw [hmantissa, h.split, ← List.append_assoc, List.filter_append, ofDigits_append, List.countP_eq_length_filter]
  · rw [hscale, h.split, List.countP_append]

theorem Through.roomy (h : (atPoint negative whole).Through fraction tail n) (hf : ∀ c ∈ fraction, isDigit c ∨ c = '_') :
    ofDigits ((whole ++ fraction).filter isDigit) < limit ∧ fraction.dropLast.countP (· ≠ '_') < maxScale := by
  refine ⟨atPoint_mantissa negative whole fraction ▸ h.lt, ?_⟩
  rcases List.eq_nil_or_concat' fraction with rfl | ⟨front, c, rfl⟩
  · decide
  · have hroom := h.room front c [] rfl
    rw [List.dropLast_concat, Decimal.countP_ne_mark fun c hc ↦ hf c (List.mem_append_left _ hc),
      ← atPoint_scale negative whole]
    by_contra hs
    exact hroom ⟨by simp [atPoint], .inl (not_lt.1 hs)⟩

theorem Stopped.not_roomy {front back : List Char} {c : Char} (h : (atPoint negative whole).Stopped fraction n front c back)
    (hf : ∀ c ∈ fraction, isDigit c ∨ c = '_') :
    ¬(ofDigits ((whole ++ fraction).filter isDigit) < limit ∧ fraction.dropLast.countP (· ≠ '_') < maxScale) := by
  rintro ⟨hl, hroom⟩
  obtain ⟨-, hs | ⟨d, hd, hm⟩⟩ := h.full
  · have hd : fraction.dropLast = front ++ (c :: back).dropLast := by
      rw [h.split, List.dropLast_append_of_ne_nil (List.cons_ne_nil c back)]
    rw [Decimal.countP_ne_mark fun c hc ↦ hf c (List.mem_of_mem_dropLast hc), hd, List.countP_append] at hroom
    rw [atPoint_scale] at hs
    omega
  · have hpush : (((atPoint negative whole).pushAll front).push c).mantissa =
        ((atPoint negative whole).pushAll front).mantissa * 10 + d := by rw [push, hd]
    have hall : (atPoint negative whole).pushAll fraction = (((atPoint negative whole).pushAll front).push c).pushAll back := by
      rw [h.split, pushAll, List.foldl_append]
      rfl
    have hle : limit ≤ ((atPoint negative whole).pushAll fraction).mantissa := by
      rw [hall, pushAll_mantissa, hpush]
      exact (hm.trans (Nat.le_mul_of_pos_right _ (by positivity))).trans (Nat.le_add_right _ _)
    rw [atPoint_mantissa] at hle
    omega

end Scan

variable {b : Numeric} {k : ℕ}

theorem value_of_raised? (h : b.raised? k = some n) : n.toDecimal.value = b.toDecimal.value * 10 ^ (k : ℤ) := by
  rw [toDecimal, toDecimal, ← Decimal.value_sub]
  rw [raised?] at h
  split at h
  · next hk =>
    obtain ⟨hc, hs⟩ := of?_eq_some h
    rw [hc, hs, Nat.cast_sub hk]
  · next hk =>
    split at h
    · cases h
    · obtain ⟨hc, hs⟩ := of?_eq_some h
      obtain ⟨j, rfl⟩ := Nat.exists_eq_add_of_le (le_of_not_ge hk)
      have he : (b.scale : ℤ) - (b.scale + j : ℕ) = -j := by
        push_cast
        ring
      rw [hc, hs, he, Decimal.value_neg, Nat.add_sub_cancel_left, Decimal.pow10_eq, Nat.cast_zero, Decimal.value_whole]
      push_cast
      rfl

theorem value_of_lowered?_iff (h : b.lowered? k = some n) :
    n.toDecimal.value = b.toDecimal.value * 10 ^ (-k : ℤ) ↔ Held (b.toDecimal.value * 10 ^ (-k : ℤ)) := by
  refine ⟨fun he ↦ ⟨n, he⟩, ?_⟩
  rintro ⟨n', hn'⟩
  have hq : b.toDecimal.value * 10 ^ (-k : ℤ) = Decimal.value ⟨b.coefficient, (b.scale + k : ℕ)⟩ := by
    rw [toDecimal, ← Decimal.value_sub, sub_neg_eq_add]
    rfl
  rw [lowered?] at h
  obtain ⟨_, hg, h⟩ := Option.bind_eq_some_iff.1 h
  have hk := (Option.guard_eq_some' _).1 hg
  split at h
  · obtain ⟨hc, hs⟩ := of?_eq_some h
    rw [hq, toDecimal, hc, hs]
  · next hs =>
    obtain ⟨r, hr, h⟩ := Option.bind_eq_some_iff.1 h
    rw [maxScale] at hk hs hr h
    obtain ⟨hc, hscale⟩ := of?_eq_some h
    obtain ⟨i, hi⟩ := Nat.exists_eq_add_of_le n'.scale_le
    obtain ⟨j, hj⟩ : ∃ j, b.scale + k = 28 + j := ⟨b.scale + k - 28, by omega⟩
    have hb : b.coefficient = n'.coefficient * 10 ^ i * 10 ^ j := by
      rw [hq, toDecimal, Decimal.value_ofNat, Decimal.value_ofNat, div_eq_div_iff (by positivity) (by positivity)] at hn'
      have hm : n'.coefficient * 10 ^ (b.scale + k) = b.coefficient * 10 ^ n'.scale := by exact_mod_cast hn'
      refine mul_right_cancel₀ (show (10 : ℤ) ^ n'.scale ≠ 0 by positivity) ?_
      rw [← hm, hj, hi, pow_add, pow_add]
      ring
    have hr' : r.coefficient = n'.coefficient * 10 ^ i := by
      rw [rescaled?, if_pos (by omega), show b.scale - (28 - k) = j by omega, hb, Decimal.pow10_eq, roundAway_mul] at hr
      exact (of?_eq_some hr).1
    rw [← hn', toDecimal, hc, hscale, hr', hi, Nat.cast_add, Decimal.value_mul_pow10]
    rfl

end Numeric

end Upsert
