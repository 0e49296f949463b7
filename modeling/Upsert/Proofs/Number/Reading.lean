import Upsert.Proofs.Number.Numeric

namespace Upsert.Numeric

open Text

variable {s : String} {n : Numeric} {digits exponent : ℤ} {places : ℕ}

theorem toList_eq (s : String) : s.toList = Decimal.baseChars s ++ Decimal.exponentChars s :=
  List.takeWhile_append_dropWhile.symm

theorem isExponentMark_head (s : String) : ∀ c ∈ (Decimal.exponentChars s).head?, Decimal.isExponentMark c := by
  intro c hc
  have h := List.head?_dropWhile_not (fun c ↦ !Decimal.isExponentMark c) s.toList
  rw [← Decimal.exponentChars, Option.mem_def.1 hc] at h
  simpa using h

theorem ne_sign_of_run? {negative : Bool} {body tail : List Char}
    (h : Scan.run? { negative := negative } (body ++ tail) = some n) :
    ∀ c fraction, body = '.' :: c :: fraction → c ≠ '-' ∧ c ≠ '+' := by
  rintro c fraction rfl
  refine ⟨?_, ?_⟩ <;>
  · rintro rfl
    rw [List.cons_append, List.cons_append, Scan.run?, Scan.run?] at h
    simp [digit?, maxScale] at h

variable {negative : Bool} {body : List Char}

theorem roomy_iff {whole fraction : List Char} (hb : splitSign (Decimal.baseChars s) = (negative, body))
    (hs : Decimal.readBase? (Decimal.baseChars s) = some (digits, places)) (hp : Decimal.Parts body whole fraction)
    (hw : ∀ c ∈ whole, isDigit c ∨ c = '_') :
    Roomy s ↔ digits.natAbs < limit ∧ fraction.dropLast.countP (· ≠ '_') < maxScale := by
  rw [Roomy, Decimal.fractionChars_eq hb hp hw, hs]
  refine ⟨?_, fun h ↦ ⟨_, _, rfl, h⟩⟩
  rintro ⟨_, _, he, h⟩
  cases he
  exact h

theorem read_base (hs : Decimal.Spells s digits places exponent) (hb : splitSign (Decimal.baseChars s) = (negative, body))
    {tail : List Char} (ht : ∀ c ∈ tail.head?, Decimal.isExponentMark c)
    (h : Scan.run? { negative := negative } (body ++ tail) = some n) :
    tail = [] ∧ n.toDecimal.value = Decimal.value ⟨digits, places⟩ ∧ Roomy s ∨
      (∀ e : ℤ, n.toDecimal.value = Decimal.value ⟨digits, places⟩ * 10 ^ e ↔
        Held (Decimal.value ⟨digits, places⟩ * 10 ^ e) ∧
          Decimal.value ⟨digits, places⟩ = Decimal.value ⟨digits, places⟩ * 10 ^ e) ∧
        ¬Roomy s ∧ ∀ more, Scan.run? { negative := negative } (body ++ more) = some n := by
  obtain ⟨whole, fraction, hp, hall, rfl, rfl⟩ := Decimal.exists_parts hb hs.base (ne_sign_of_run? h)
  have hw : ∀ c ∈ whole, isDigit c ∨ c = '_' := fun c hc ↦ hall c (List.mem_append_left _ hc)
  have hf : ∀ c ∈ fraction, isDigit c ∨ c = '_' := fun c hc ↦ hall c (List.mem_append_right _ hc)
  rw [roomy_iff hb hs.base hp hw, natAbs_signed]
  obtain ht | ⟨⟨front, c, back, hst⟩, hrun⟩ := Scan.run?_parts hp hall ht h
  · refine .inl ⟨ht.tail, ?_, ht.roomy hf⟩
    obtain ⟨hc, hsc⟩ := Scan.result?_eq_some ht.result
    rw [toDecimal, hc, hsc, Scan.atPoint_mantissa, Scan.atPoint_scale, Scan.pushAll_negative, Scan.atPoint_negative]
  · refine .inr ⟨fun e ↦ ?_, hst.not_roomy hf, hrun⟩
    obtain ⟨m, places, r, rest, d, rounded, hcut, hr, hm, hpl, hv⟩ := hst.exists_cut hf
    refine hcut.value_eq_iff hr ?_ hv ?_ e
    · cases negative <;> simp [signed]
    · rw [Decimal.value_ofNat, Decimal.cast_signed, hm, hpl, mul_div_assoc]

variable {rest : List Char} {mark : Char} {k : ℕ}

theorem readUnsigned?_eq_some {negative : Bool} {ds : List Char} (hs : splitSign rest = (negative, ds))
    (h : readUnsigned? rest = some k) : negative = false ∧ (∀ c ∈ ds, isDigit c) ∧ k = ofDigits ds := by
  rw [readUnsigned?] at h
  obtain ⟨z, hz, rfl⟩ := Option.map_eq_some_iff.1 h
  obtain ⟨-, hn, hds, rfl⟩ := readInteger_eq_ok (by rw [String.toList_ofList, hs]) (Except.toOption_eq_some_iff.1 hz)
  cases negative
  · exact ⟨rfl, hds, by simp [signed]⟩
  · exact absurd (hn rfl) (by decide)

theorem exponent_of_readUnsigned? (he : Decimal.IsExponent (mark :: rest) exponent) (h : readUnsigned? rest = some k) :
    exponent = k := by
  cases he with
  | behind hs _ _ =>
    obtain ⟨rfl, -, rfl⟩ := readUnsigned?_eq_some hs h
    rfl

theorem exponent_of_minus (he : Decimal.IsExponent (mark :: '-' :: rest) exponent) (h : readUnsigned? rest = some k) :
    exponent = -k := by
  cases he with
  | behind hs _ hds =>
    cases hs
    obtain ⟨-, -, rfl⟩ := readUnsigned?_eq_some (splitSign_of_isDigit hds) h
    rfl

theorem scaled_value_iff {b : Numeric} (h : (match rest with
      | '-' :: rest => readUnsigned? rest >>= b.lowered?
      | rest => readUnsigned? rest >>= b.raised?) = some n) (he : Decimal.IsExponent (mark :: rest) exponent) :
    n.toDecimal.value = b.toDecimal.value * 10 ^ exponent ↔ Held (b.toDecimal.value * 10 ^ exponent) := by
  split at h
  · next he =>
    obtain ⟨k, hk, h⟩ := Option.bind_eq_some_iff.1 h
    rw [exponent_of_minus he hk]
    exact value_of_lowered?_iff h
  · obtain ⟨k, hk, h⟩ := Option.bind_eq_some_iff.1 h
    have hv := value_of_raised? h
    rw [exponent_of_readUnsigned? he hk, ← hv]
    exact ⟨fun _ ↦ ⟨n, rfl⟩, fun _ ↦ rfl⟩

theorem read?_value_iff (hs : Decimal.Spells s digits places exponent) (h : read? s = some n) :
    n.toDecimal.value = Decimal.value ⟨digits, places - exponent⟩ ↔
      Held (Decimal.value ⟨digits, places - exponent⟩) ∧
        (Roomy s ∨ Decimal.base? s = some (Decimal.value ⟨digits, places - exponent⟩)) := by
  obtain ⟨negative, body, hb⟩ : ∃ negative body, splitSign (Decimal.baseChars s) = (negative, body) := ⟨_, _, rfl⟩
  have hne : Decimal.baseChars s ≠ [] := by
    intro hn
    have := hs.base
    rw [hn] at this
    cases this
  have hplain := readPlain?_eq (splitSign_append hb hne (Decimal.exponentChars s))
  rw [← toList_eq] at hplain
  rw [Decimal.value_sub, hs.base?, Option.some_inj]
  rw [read?] at h
  cases hp : readPlain? s.toList with
  | some n' =>
    obtain rfl : n' = n := by simpa [hp] using h
    obtain ⟨ht, hv, hr⟩ | ⟨hv, hr, -⟩ := read_base hs hb (isExponentMark_head s) (hplain ▸ hp)
    · have he := hs.exponent
      rw [ht] at he
      cases he
      rw [zpow_zero, mul_one]
      exact ⟨fun _ ↦ ⟨⟨n', hv⟩, .inl hr⟩, fun _ ↦ hv⟩
    · rw [hv, or_iff_right hr]
  | none =>
    have hsci : readScientific? s.toList = some n := by simpa [hp] using h
    obtain ⟨b, hread, h⟩ := Option.bind_eq_some_iff.1 hsci
    rw [← Decimal.baseChars, readPlain?_eq hb] at hread
    rw [← Decimal.exponentChars] at h
    rw [← List.append_nil body] at hread
    obtain ⟨-, hv, hr⟩ | ⟨-, -, hrun⟩ := read_base hs hb (by simp) hread
    · have he := hs.exponent
      cases hx : Decimal.exponentChars s with
      | nil =>
        rw [hx] at h
        cases h
      | cons mark rest =>
        rw [hx] at h he
        rw [← hv, scaled_value_iff h he]
        exact ⟨fun hq ↦ ⟨hq, .inl hr⟩, And.left⟩
    · rw [hplain, hrun] at hp
      cases hp

variable {d : Decimal}

theorem natAbs_lt_of_held (hh : Held d.value) (hs : d.scale ≤ 0) : d.digits.natAbs < limit := by
  obtain ⟨n, hn⟩ := hh
  obtain ⟨k, hk⟩ := Int.eq_ofNat_of_zero_le (show 0 ≤ -d.scale by omega)
  have hv : d.value = (d.digits * 10 ^ k : ℤ) := by
    rw [← Decimal.value_neg, ← hk, neg_neg]
  rw [hv, toDecimal, Decimal.value_ofNat_eq_iff] at hn
  have hlt := n.natAbs_lt
  rw [hn, mul_assoc, ← pow_add, Int.natAbs_mul, Int.natAbs_pow] at hlt
  exact (Nat.le_mul_of_pos_right _ (by simp)).trans_lt hlt

theorem roomy_text_small_iff (hz : d.digits ≠ 0) (hs : (d.digitCount : ℤ) + 5 < d.scale) :
    Roomy d.text ↔ d.digits.natAbs < limit := by
  have hsplit := Decimal.splitSign_pointAfterFirst (decide (d.digits < 0)) d.isDigit_digits
  rw [← d.baseChars_text_small hz hs] at hsplit
  rw [roomy_iff hsplit (d.spells_text_small hz hs).base (Decimal.parts_pointAfterFirst Nat.toDigits_ne_nil)
    fun c hc ↦ .inl (d.isDigit_digits c (List.mem_of_mem_take hc))]
  refine ⟨And.left, fun hl ↦ ⟨hl, ?_⟩⟩
  have hcount : (Nat.toDigits 10 d.digits.natAbs).length ≤ 29 := by
    refine (Nat.length_toDigits_le_iff (by norm_num) (by norm_num)).2 (hl.trans ?_)
    norm_num [limit]
  have hle := List.countP_le_length (p := (· ≠ '_')) (l := ((Nat.toDigits 10 d.digits.natAbs).drop 1).dropLast)
  rw [List.length_dropLast, List.length_drop] at hle
  rw [maxScale]
  omega

theorem roomy_text_large_iff (hz : d.digits ≠ 0) (hs : ¬(d.digitCount : ℤ) + 5 < d.scale) (hl : d.scale < -15) :
    Roomy d.text ↔ d.digits.natAbs < limit := by
  have hsplit := Decimal.splitSign_signChars (decide (d.digits < 0)) d.isDigit_digits
  rw [← d.baseChars_text_large hz hs hl] at hsplit
  rw [roomy_iff hsplit (d.spells_text_large hz hs hl).base (.inl ⟨rfl, rfl⟩) fun c hc ↦ .inl (d.isDigit_digits c hc)]
  exact and_iff_left (by decide)

theorem text_read_iff (hh : Held d.value) : Roomy d.text ∨ Decimal.base? d.text = some d.value ↔
    d.digits.natAbs < limit ∨ d.scale ≤ d.digitCount + 5 := by
  by_cases hz : d.digits = 0
  · have hbase : Decimal.base? d.text = some d.value := by
      rw [(d.spells_text_zero hz).base?, Decimal.value_eq_zero_iff.2 hz]
      exact congrArg some (Decimal.value_whole 0)
    exact ⟨fun _ ↦ .inl (by rw [hz]; exact limit_pos), fun _ ↦ .inr hbase⟩
  by_cases hs : (d.digitCount : ℤ) + 5 < d.scale
  · have hbase : Decimal.base? d.text ≠ some d.value := by
      rw [(d.spells_text_small hz hs).base?]
      intro h
      have hscale := Decimal.scale_inj hz (Option.some_inj.1 h)
      omega
    rw [roomy_text_small_iff hz hs, or_iff_left hbase, or_iff_left (not_le.2 hs)]
  · refine ⟨fun _ ↦ .inr (not_lt.1 hs), fun _ ↦ ?_⟩
    by_cases hl : d.scale < -15
    · exact .inl ((roomy_text_large_iff hz hs hl).2 (natAbs_lt_of_held hh (by omega)))
    · obtain ⟨digits, h, hv⟩ := d.exists_spells_text_plain hz hs hl
      exact .inr (by rw [h.base?, hv])

end Upsert.Numeric
