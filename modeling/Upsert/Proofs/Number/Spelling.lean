import Mathlib.Data.List.TakeWhile
import Upsert.Proofs.Number.Decimal

namespace Upsert

namespace Text

variable {cs ds : List Char} {negative : Bool}

theorem exists_sign (h : splitSign cs = (negative, ds)) : ∃ sign, cs = sign ++ ds ∧ ∀ c ∈ sign, c = '-' ∨ c = '+' := by
  obtain ⟨rfl, -⟩ | ⟨rfl, -⟩ | ⟨rfl, -⟩ := splitSign_cases h
  · exact ⟨['-'], rfl, by simp⟩
  · exact ⟨['+'], rfl, by simp⟩
  · exact ⟨[], rfl, by simp⟩

theorem splitSign_append (h : splitSign cs = (negative, ds)) (hne : cs ≠ []) (more : List Char) :
    splitSign (cs ++ more) = (negative, ds ++ more) := by
  obtain ⟨rfl, rfl⟩ | ⟨rfl, rfl⟩ | ⟨rfl, rfl, hm, hp⟩ := splitSign_cases h
  · rfl
  · rfl
  · obtain ⟨c, cs, rfl⟩ := List.exists_cons_of_ne_nil hne
    refine splitSign_of_unsigned (fun ds hc ↦ ?_) (fun ds hc ↦ ?_)
    · cases hc
      exact hm cs rfl
    · cases hc
      exact hp cs rfl

end Text

namespace Decimal

open Text

variable {cs ds es : List Char} {negative : Bool} {digits exponent : ℤ} {places n : ℕ}

theorem readDigits?_eq_some (h : readDigits? cs = some n) :
    cs ≠ [] ∧ (∀ c ∈ cs, isDigit c ∨ c = '_') ∧ n = ofDigits (cs.filter isDigit) := by
  rw [readDigits?.eq_def] at h
  split at h
  · cases h
  · cases h
  · next hne _ =>
    split at h
    · next hall =>
      refine ⟨hne, ?_, (Option.some.inj h).symm⟩
      simpa using hall
    · cases h

theorem readDigits?_of_isDigit (hne : ds ≠ []) (h : ∀ c ∈ ds, isDigit c) : readDigits? ds = some (ofDigits ds) := by
  rw [readDigits?.eq_def]
  split
  · exact absurd rfl hne
  · exact absurd (h '_' List.mem_cons_self) (by decide)
  · rw [if_pos (by simpa using fun c hc ↦ Or.inl (h c hc)), List.filter_eq_self.2 h]

theorem isDigit_ne_point {c : Char} (h : isDigit c) : c ≠ '.' := by
  rintro rfl
  exact absurd h (by decide)

theorem readWhole?_eq (h : splitSign cs = (negative, ds)) : readWhole? cs = (readDigits? ds).map (signed negative) := by
  obtain ⟨rfl, rfl⟩ | ⟨rfl, rfl⟩ | ⟨rfl, rfl, hm, hp⟩ := splitSign_cases h
  · change Option.map _ (do let a ← readDigits? ds; pure (a : ℤ)) = _
    cases readDigits? ds <;> rfl
  · rfl
  · rw [readWhole?.eq_def]
    split
    · exact absurd rfl (hm _)
    · exact absurd rfl (hp _)
    · rfl

theorem readBase?_of_no_point (h : ∀ c ∈ cs, c ≠ '.') : readBase? cs = (readWhole? cs).map (·, 0) := by
  have ht : cs.takeWhile (· ≠ '.') = cs := List.takeWhile_eq_self_iff.2 (by simpa using h)
  have hd : cs.dropWhile (· ≠ '.') = [] := List.dropWhile_eq_nil_iff.2 (by simpa using h)
  simp only [readBase?, ht, hd, List.drop_nil, List.append_nil, List.countP_nil]

theorem readBase?_point (h : ∀ c ∈ cs, c ≠ '.') :
    readBase? (cs ++ '.' :: es) = (readWhole? (cs ++ es)).map (·, es.countP (· ≠ '_')) := by
  have ht : (cs ++ '.' :: es).takeWhile (· ≠ '.') = cs := by
    rw [List.takeWhile_append_of_pos (by simpa using h), List.takeWhile_cons_of_neg (by simp), List.append_nil]
  have hd : (cs ++ '.' :: es).dropWhile (· ≠ '.') = '.' :: es := by
    rw [List.dropWhile_append_of_pos (by simpa using h), List.dropWhile_cons_of_neg (by simp)]
  simp only [readBase?, ht, hd, List.drop_one, List.tail_cons]

theorem countP_ne_mark (h : ∀ c ∈ es, isDigit c ∨ c = '_') : es.countP (· ≠ '_') = es.countP isDigit := by
  refine List.countP_congr fun c hc ↦ ?_
  obtain hd | rfl := h c hc
  · have hne : c ≠ '_' := by
      rintro rfl
      exact absurd hd (by decide)
    simp [hd, hne]
  · decide

def Parts (body whole fraction : List Char) : Prop :=
  body = whole ∧ fraction = [] ∨ body = whole ++ '.' :: fraction

theorem readWhole?_eq_some (hs : splitSign cs = (negative, ds)) (h : readWhole? cs = some digits) :
    (∀ c ∈ ds, isDigit c ∨ c = '_') ∧ digits = signed negative (ofDigits (ds.filter isDigit)) := by
  rw [readWhole?_eq hs] at h
  obtain ⟨n, hn, rfl⟩ := Option.map_eq_some_iff.1 h
  obtain ⟨-, hall, rfl⟩ := readDigits?_eq_some hn
  exact ⟨hall, rfl⟩

theorem exists_splitSign_point {body : List Char} (hs : splitSign (cs ++ '.' :: es) = (negative, body))
    (hp : ∀ c fraction, body = '.' :: c :: fraction → c ≠ '-' ∧ c ≠ '+') :
    ∃ whole, body = whole ++ '.' :: es ∧ splitSign (cs ++ es) = (negative, whole ++ es) := by
  cases cs with
  | nil =>
    cases hs
    exact ⟨[], rfl, splitSign_of_unsigned (fun _ h ↦ (hp '-' _ (congrArg _ h)).1 rfl)
      fun _ h ↦ (hp '+' _ (congrArg _ h)).2 rfl⟩
  | cons c cs =>
    obtain ⟨negative', whole, hw⟩ : ∃ negative' whole, splitSign (c :: cs) = (negative', whole) := ⟨_, _, rfl⟩
    rw [splitSign_append hw (List.cons_ne_nil c cs)] at hs
    cases hs
    exact ⟨whole, rfl, splitSign_append hw (List.cons_ne_nil c cs) es⟩

theorem exists_parts {body : List Char} (hs : splitSign cs = (negative, body)) (h : readBase? cs = some (digits, places))
    (hp : ∀ c fraction, body = '.' :: c :: fraction → c ≠ '-' ∧ c ≠ '+') :
    ∃ whole fraction, Parts body whole fraction ∧ (∀ c ∈ whole ++ fraction, isDigit c ∨ c = '_') ∧
      digits = signed negative (ofDigits ((whole ++ fraction).filter isDigit)) ∧ places = fraction.countP isDigit := by
  by_cases hpoint : '.' ∈ cs
  · obtain ⟨pre, es, rfl, hpre⟩ := List.eq_append_cons_of_mem hpoint
    rw [readBase?_point (by rintro c hc rfl; exact hpre hc)] at h
    obtain ⟨_, hw, he⟩ := Option.map_eq_some_iff.1 h
    cases he
    obtain ⟨whole, hbody, hes⟩ := exists_splitSign_point hs hp
    obtain ⟨hall, hd⟩ := readWhole?_eq_some hes hw
    exact ⟨whole, es, .inr hbody, hall, hd, countP_ne_mark fun c hc ↦ hall c (List.mem_append_right _ hc)⟩
  · rw [readBase?_of_no_point (by rintro c hc rfl; exact hpoint hc)] at h
    obtain ⟨_, hw, he⟩ := Option.map_eq_some_iff.1 h
    cases he
    obtain ⟨hall, hd⟩ := readWhole?_eq_some hs hw
    exact ⟨body, [], .inl ⟨rfl, rfl⟩, by simpa using hall, by simpa using hd, rfl⟩

theorem no_point (hs : splitSign cs = (negative, ds)) (h : ∀ c ∈ ds, isDigit c) : ∀ c ∈ cs, c ≠ '.' := by
  obtain ⟨sign, rfl, hsign⟩ := exists_sign hs
  intro c hc
  rcases List.mem_append.1 hc with hc | hc
  · obtain rfl | rfl := hsign c hc <;> decide
  · exact isDigit_ne_point (h c hc)

theorem readBase?_digits (hs : splitSign cs = (negative, ds)) (hne : ds ≠ []) (h : ∀ c ∈ ds, isDigit c) :
    readBase? cs = some (signed negative (ofDigits ds), 0) := by
  rw [readBase?_of_no_point (no_point hs h), readWhole?_eq hs, readDigits?_of_isDigit hne h]
  rfl

theorem readBase?_digits_point (hs : splitSign cs = (negative, ds)) (hne : ds ≠ []) (h : ∀ c ∈ ds ++ es, isDigit c) :
    readBase? (cs ++ '.' :: es) = some (signed negative (ofDigits (ds ++ es)), es.length) := by
  have hds : ∀ c ∈ ds, isDigit c := fun c hc ↦ h c (List.mem_append_left _ hc)
  have hes : ∀ c ∈ es, isDigit c := fun c hc ↦ h c (List.mem_append_right _ hc)
  have hcs : cs ≠ [] := by
    rintro rfl
    cases hs
    exact hne rfl
  rw [readBase?_point (no_point hs hds), readWhole?_eq (splitSign_append hs hcs es),
    readDigits?_of_isDigit (by simp [hne]) h, countP_ne_mark fun c hc ↦ .inl (hes c hc), List.countP_eq_length.2 hes]
  rfl

theorem not_isExponentMark {c : Char} (h : isDigit c ∨ c = '.') : (!isExponentMark c) = true := by
  obtain h | rfl := h
  · rw [isExponentMark]
    have he : c ≠ 'e' := by rintro rfl; exact absurd h (by decide)
    have hE : c ≠ 'E' := by rintro rfl; exact absurd h (by decide)
    simp [he, hE]
  · decide

def baseChars (s : String) : List Char := s.toList.takeWhile fun c ↦ !isExponentMark c

def exponentChars (s : String) : List Char := s.toList.dropWhile fun c ↦ !isExponentMark c

inductive IsExponent : List Char → ℤ → Prop
  | absent : IsExponent [] 0
  | behind {mark : Char} {rest ds : List Char} {negative : Bool} (hs : splitSign rest = (negative, ds)) (hne : ds ≠ [])
      (hds : ∀ c ∈ ds, isDigit c) : IsExponent (mark :: rest) (signed negative (ofDigits ds))

/-- The text spells `digits / 10 ^ places * 10 ^ exponent`, whatever the size of the exponent. -/
structure Spells (s : String) (digits : ℤ) (places : ℕ) (exponent : ℤ) : Prop where
  base : readBase? (baseChars s) = some (digits, places)
  exponent : IsExponent (exponentChars s) exponent

theorem exists_spells_of_read? {s : String} {d : Decimal} (h : read? s = some d) :
    ∃ digits places exponent, Spells s digits places exponent ∧ d = ⟨digits, places - exponent⟩ := by
  have hbase : ∀ exponent : ℤ, (readBase? (baseChars s) >>= fun base ↦ do
      guard (Int64.minValue.toInt ≤ (base.2 : ℤ) - exponent ∧ (base.2 : ℤ) - exponent ≤ Int64.maxValue.toInt)
      return (⟨base.1, base.2 - exponent⟩ : Decimal)) = some d →
      ∃ digits places, readBase? (baseChars s) = some (digits, places) ∧ d = ⟨digits, places - exponent⟩ := by
    intro exponent h
    obtain ⟨⟨digits, places⟩, hb, h⟩ := Option.bind_eq_some_iff.1 h
    obtain ⟨_, -, h⟩ := Option.bind_eq_some_iff.1 h
    exact ⟨digits, places, hb, (Option.some.inj h).symm⟩
  rw [read?] at h
  split at h
  · next hx =>
    obtain ⟨digits, places, hb, hd⟩ := hbase 0 h
    refine ⟨digits, places, 0, ⟨hb, ?_⟩, hd⟩
    rw [exponentChars, hx]
    exact .absent
  · next mark rest hx =>
    obtain ⟨exponent, he, h⟩ := Option.bind_eq_some_iff.1 h
    obtain ⟨digits, places, hb, hd⟩ := hbase exponent h
    obtain ⟨negative, ds, hs⟩ : ∃ negative ds, splitSign rest = (negative, ds) := ⟨_, _, rfl⟩
    obtain ⟨hne, -, hds, hv⟩ := readInteger_eq_ok (s := String.ofList rest) (by rw [String.toList_ofList, hs])
      (Except.toOption_eq_some_iff.1 he)
    refine ⟨digits, places, exponent, ⟨hb, ?_⟩, hd⟩
    rw [exponentChars, hx, hv]
    exact .behind hs hne hds

theorem read?_of_isDigit {s : String} (hs : splitSign s.toList = (negative, ds)) (hne : ds ≠ []) (hds : ∀ c ∈ ds, isDigit c) :
    read? s = some ⟨signed negative (ofDigits ds), 0⟩ := by
  have hm : ∀ c ∈ s.toList, (!isExponentMark c) = true := by
    obtain ⟨sign, he, hsign⟩ := exists_sign hs
    intro c hc
    rw [he] at hc
    rcases List.mem_append.1 hc with hc | hc
    · obtain rfl | rfl := hsign c hc <;> decide
    · exact not_isExponentMark (.inl (hds c hc))
  rw [read?, List.dropWhile_eq_nil_iff.2 hm, List.takeWhile_eq_self_iff.2 hm]
  simp only [Option.bind_eq_bind, Option.bind_some, readBase?_digits hs hne hds]
  rfl

def signChars (negative : Bool) : List Char := if negative then ['-'] else []

section Signed

variable (negative)

theorem splitSign_signChars_of_head (h : ∀ c ∈ cs.head?, isDigit c) :
    splitSign (signChars negative ++ cs) = (negative, cs) := by
  cases negative
  · exact splitSign_of_head h
  · rfl

theorem splitSign_signChars (h : ∀ c ∈ ds, isDigit c) : splitSign (signChars negative ++ ds) = (negative, ds) :=
  splitSign_signChars_of_head negative fun c hc ↦ h c (List.mem_of_head? hc)

theorem isDigit_zeros (n : ℕ) : ∀ c ∈ List.replicate n '0', isDigit c := by
  intro c hc
  rw [List.eq_of_mem_replicate hc]
  decide

theorem readBase?_signed (hne : ds ≠ []) (h : ∀ c ∈ ds, isDigit c) :
    readBase? (signChars negative ++ ds) = some (signed negative (ofDigits ds), 0) :=
  readBase?_digits (splitSign_signChars negative h) hne h

theorem readBase?_signed_point (hne : ds ≠ []) (h : ∀ c ∈ ds ++ es, isDigit c) :
    readBase? (signChars negative ++ (ds ++ '.' :: es)) = some (signed negative (ofDigits (ds ++ es)), es.length) := by
  rw [← List.append_assoc]
  exact readBase?_digits_point (splitSign_signChars negative fun c hc ↦ h c (List.mem_append_left _ hc)) hne h

theorem exists_point_plainDecimal {k : ℕ} (hk : 0 < k) (h : ∀ c ∈ ds, isDigit c) :
    ∃ whole fraction, plainDecimal ds (-k) = whole ++ '.' :: fraction ∧ whole ≠ [] ∧
      (∀ c ∈ whole ++ fraction, isDigit c) ∧ ofDigits (whole ++ fraction) = ofDigits ds ∧ fraction.length = k := by
  rw [plainDecimal, if_neg (by omega), neg_neg, Int.toNat_natCast]
  by_cases hl : ds.length ≤ k
  · refine ⟨['0'], List.replicate (k - ds.length) '0' ++ ds, if_pos hl, List.cons_ne_nil _ _, ?_, ?_, ?_⟩
    · intro c hc
      rcases List.mem_append.1 hc with hc | hc
      · exact isDigit_zeros 1 c hc
      · exact (List.mem_append.1 hc).elim (isDigit_zeros _ c) (h c)
    · rw [ofDigits_append, ofDigits_append, ofDigits_replicate_zero, show ofDigits ['0'] = 0 from rfl]
      simp
    · rw [List.length_append, List.length_replicate]
      omega
  · have hsplit := List.take_append_drop (ds.length - k) ds
    refine ⟨_, _, if_neg hl, ?_, by rwa [hsplit], by rw [hsplit], ?_⟩
    · rw [← List.length_pos_iff, List.length_take]
      omega
    · rw [List.length_drop]
      omega

theorem exists_readBase?_plainDecimal (negative : Bool) (m : ℕ) (exponent : ℤ) :
    ∃ digits, readBase? (signChars negative ++ plainDecimal (Nat.toDigits 10 m) exponent) =
      some (digits, (-exponent).toNat) ∧ value ⟨digits, (-exponent).toNat⟩ = value ⟨signed negative m, -exponent⟩ := by
  have hds : ∀ c ∈ Nat.toDigits 10 m, isDigit c := fun c ↦ isDigit_of_mem_toDigits
  have hne : Nat.toDigits 10 m ≠ [] := Nat.toDigits_ne_nil
  have hm := ofDigits_toDigits m
  generalize Nat.toDigits 10 m = ds at hds hne hm
  rcases le_or_gt 0 exponent with he | he
  · obtain ⟨k, rfl⟩ := Int.eq_ofNat_of_zero_le he
    have hall : ∀ c ∈ ds ++ List.replicate k '0', isDigit c :=
      fun c hc ↦ (List.mem_append.1 hc).elim (hds c) (isDigit_zeros k c)
    have hv : ofDigits (ds ++ List.replicate k '0') = m * 10 ^ k := by
      rw [ofDigits_append, List.length_replicate, ofDigits_replicate_zero, hm, add_zero]
    rw [show (-(k : ℤ)).toNat = 0 by omega]
    refine ⟨signed negative (m * 10 ^ k), ?_, ?_⟩
    · rw [plainDecimal, if_pos he, Int.toNat_natCast, readBase?_signed negative (by simp [hne]) hall, hv]
    · rw [value_neg, signed_mul]
      simp
  · obtain ⟨k, rfl⟩ : ∃ k : ℕ, exponent = -k := ⟨(-exponent).toNat, by omega⟩
    obtain ⟨whole, fraction, hp, hw, hall, hv, hl⟩ := exists_point_plainDecimal (k := k) (by omega) hds
    rw [neg_neg, Int.toNat_natCast]
    refine ⟨signed negative m, ?_, rfl⟩
    rw [hp, readBase?_signed_point negative hw hall, hv, hm, hl]

theorem mem_plainDecimal {c : Char} {exponent : ℤ} (h : ∀ c ∈ ds, isDigit c) (hc : c ∈ plainDecimal ds exponent) :
    isDigit c ∨ c = '.' := by
  rcases le_or_gt 0 exponent with he | he
  · rw [plainDecimal, if_pos he] at hc
    exact .inl ((List.mem_append.1 hc).elim (h c) (isDigit_zeros _ c))
  · obtain ⟨k, rfl⟩ : ∃ k : ℕ, exponent = -k := ⟨(-exponent).toNat, by omega⟩
    obtain ⟨whole, fraction, hp, -, hall, -⟩ := exists_point_plainDecimal (k := k) (by omega) h
    rw [hp] at hc
    rcases List.mem_append.1 hc with hc | hc
    · exact .inl (hall c (List.mem_append_left _ hc))
    · exact (List.mem_cons.1 hc).elim .inr fun hc ↦ .inl (hall c (List.mem_append_right _ hc))

theorem readBase?_pointAfterFirst (hne : ds ≠ []) (h : ∀ c ∈ ds, isDigit c) :
    readBase? (signChars negative ++ pointAfterFirst ds) = some (signed negative (ofDigits ds), ds.length - 1) := by
  cases ds with
  | nil => exact absurd rfl hne
  | cons d ds =>
    cases ds with
    | nil => exact readBase?_signed negative hne h
    | cons e ds => exact readBase?_signed_point negative (List.cons_ne_nil d []) h

theorem parts_pointAfterFirst (hne : ds ≠ []) : Parts (pointAfterFirst ds) (ds.take 1) (ds.drop 1) := by
  cases ds with
  | nil => exact absurd rfl hne
  | cons d ds =>
    cases ds with
    | nil => exact .inl ⟨rfl, rfl⟩
    | cons e ds => exact .inr rfl

theorem splitSign_pointAfterFirst (h : ∀ c ∈ ds, isDigit c) :
    splitSign (signChars negative ++ pointAfterFirst ds) = (negative, pointAfterFirst ds) := by
  refine splitSign_signChars_of_head negative fun c hc ↦ ?_
  rw [pointAfterFirst.eq_def] at hc
  split at hc
  · cases hc
    exact h _ List.mem_cons_self
  · exact h c (List.mem_of_head? hc)

theorem mem_pointAfterFirst {c : Char} (h : ∀ c ∈ ds, isDigit c) (hc : c ∈ pointAfterFirst ds) : isDigit c ∨ c = '.' := by
  rw [pointAfterFirst.eq_def] at hc
  split at hc
  · rcases List.mem_cons.1 hc with rfl | hc
    · exact .inl (h _ List.mem_cons_self)
    · exact (List.mem_cons.1 hc).elim .inr fun hc ↦ .inl (h c (List.mem_cons_of_mem _ hc))
  · exact .inl (h c hc)

theorem not_isExponentMark_signed (h : ∀ c ∈ cs, isDigit c ∨ c = '.') :
    ∀ c ∈ signChars negative ++ cs, (!isExponentMark c) = true := by
  intro c hc
  rcases List.mem_append.1 hc with hc | hc
  · cases negative
    · cases hc
    · rw [List.mem_singleton.1 hc]
      decide
  · exact not_isExponentMark (h c hc)

end Signed

theorem spells_plain {s : String} (hs : s.toList = signChars negative ++ cs) (hcs : ∀ c ∈ cs, isDigit c ∨ c = '.')
    (hb : readBase? (signChars negative ++ cs) = some (digits, places)) : Spells s digits places 0 := by
  have hm := not_isExponentMark_signed negative hcs
  refine ⟨?_, ?_⟩
  · rwa [baseChars, hs, List.takeWhile_eq_self_iff.2 hm]
  · rw [exponentChars, hs, List.dropWhile_eq_nil_iff.2 hm]
    exact .absent

theorem baseChars_marked {s : String} {mark : Char} {rest : List Char}
    (hs : s.toList = signChars negative ++ cs ++ mark :: rest) (hcs : ∀ c ∈ cs, isDigit c ∨ c = '.')
    (hmark : isExponentMark mark) : baseChars s = signChars negative ++ cs := by
  have hm := not_isExponentMark_signed negative hcs
  rw [baseChars, hs, List.takeWhile_append_of_pos hm, List.takeWhile_cons_of_neg (by simp [hmark]), List.append_nil]

theorem exponentChars_marked {s : String} {mark : Char} {rest : List Char}
    (hs : s.toList = signChars negative ++ cs ++ mark :: rest) (hcs : ∀ c ∈ cs, isDigit c ∨ c = '.')
    (hmark : isExponentMark mark) : exponentChars s = mark :: rest := by
  have hm := not_isExponentMark_signed negative hcs
  rw [exponentChars, hs, List.dropWhile_append_of_pos hm, List.dropWhile_cons_of_neg (by simp [hmark])]

theorem toList_toString (n : ℤ) : (toString n).toList = signChars (decide (n < 0)) ++ Nat.toDigits 10 n.natAbs := by
  rw [Int.toString_eq_repr, Int.repr_eq_if]
  split
  · next hn =>
    obtain ⟨k, rfl⟩ := Int.eq_ofNat_of_zero_le hn
    rw [decide_eq_false (by omega), Int.toNat_natCast, Nat.repr_eq_ofList_toDigits, String.toList_ofList, Int.natAbs_natCast]
    rfl
  · next hn =>
    have hk : (-n).toNat = n.natAbs := by omega
    rw [decide_eq_true (by omega), hk, Nat.repr_eq_ofList_toDigits]
    simp only [String.toList_append, String.toList_ofList]
    rfl

theorem isExponent_toString (mark : Char) (n : ℤ) : IsExponent (mark :: (toString n).toList) n := by
  have hds : ∀ c ∈ Nat.toDigits 10 n.natAbs, isDigit c := fun c ↦ isDigit_of_mem_toDigits
  have h : IsExponent (mark :: (signChars (decide (n < 0)) ++ Nat.toDigits 10 n.natAbs)) _ :=
    .behind (splitSign_signChars _ hds) Nat.toDigits_ne_nil hds
  rwa [ofDigits_toDigits, signed_natAbs, ← toList_toString] at h

theorem isExponent_plus (mark : Char) {n : ℤ} (hn : 0 ≤ n) : IsExponent (mark :: '+' :: (toString n).toList) n := by
  have hds : ∀ c ∈ Nat.toDigits 10 n.natAbs, isDigit c := fun c ↦ isDigit_of_mem_toDigits
  have hl : (toString n).toList = Nat.toDigits 10 n.natAbs := by
    rw [toList_toString, decide_eq_false (by omega)]
    rfl
  have h : IsExponent (mark :: '+' :: Nat.toDigits 10 n.natAbs) _ := .behind rfl Nat.toDigits_ne_nil hds
  rw [ofDigits_toDigits] at h
  rw [hl]
  exact (show signed false n.natAbs = n from Int.natAbs_of_nonneg hn) ▸ h

theorem toList_signText (d : Decimal) : d.signText.toList = signChars (decide (d.digits < 0)) := by
  rw [signText, signChars]
  split <;> simp_all

variable (d : Decimal)

theorem isDigit_digits : ∀ c ∈ Nat.toDigits 10 d.digits.natAbs, isDigit c := fun _ ↦ isDigit_of_mem_toDigits

theorem spells_text_zero (hz : d.digits = 0) : Spells d.text 0 0 0 := by
  have ht : d.text.toList = signChars false ++ ['0'] := by
    rw [text, if_pos hz, String.toList_append, toList_signText, hz]
    rfl
  exact spells_plain ht (fun c hc ↦ .inl (isDigit_zeros 1 c hc)) (by decide)

section Small

variable (hz : d.digits ≠ 0) (hs : (d.digitCount : ℤ) + 5 < d.scale)

include hz hs

theorem toList_text_small : d.text.toList =
    signChars (decide (d.digits < 0)) ++ pointAfterFirst (Nat.toDigits 10 d.digits.natAbs) ++
      'E' :: (toString ((d.digitCount : ℤ) - 1 - d.scale)).toList := by
  rw [digitCount] at hs
  rw [text, if_neg hz, if_pos hs, String.toList_append, toList_signText, String.toList_append, String.toList_ofList,
    ← List.append_assoc, String.toList_append]
  rfl

theorem baseChars_text_small :
    baseChars d.text = signChars (decide (d.digits < 0)) ++ pointAfterFirst (Nat.toDigits 10 d.digits.natAbs) :=
  baseChars_marked (d.toList_text_small hz hs) (fun _ ↦ mem_pointAfterFirst d.isDigit_digits) (by decide)

theorem spells_text_small : Spells d.text d.digits (d.digitCount - 1) (d.digitCount - 1 - d.scale) := by
  have hb := readBase?_pointAfterFirst (decide (d.digits < 0)) Nat.toDigits_ne_nil d.isDigit_digits
  rw [ofDigits_toDigits, signed_natAbs] at hb
  refine ⟨?_, ?_⟩
  · rw [d.baseChars_text_small hz hs, hb]
    rfl
  · rw [exponentChars_marked (d.toList_text_small hz hs) (fun _ ↦ mem_pointAfterFirst d.isDigit_digits) (by decide)]
    exact isExponent_toString _ _

end Small

section Large

variable (hz : d.digits ≠ 0) (hs : ¬(d.digitCount : ℤ) + 5 < d.scale) (hl : d.scale < -15)

include hz hs hl

theorem toList_text_large : d.text.toList =
    signChars (decide (d.digits < 0)) ++ Nat.toDigits 10 d.digits.natAbs ++ 'e' :: '+' :: (toString (-d.scale)).toList := by
  rw [digitCount] at hs
  rw [text, if_neg hz, if_neg hs, if_pos hl, String.toList_append, toList_signText, String.toList_append,
    String.toList_ofList, ← List.append_assoc, String.toList_append]
  rfl

theorem baseChars_text_large :
    baseChars d.text = signChars (decide (d.digits < 0)) ++ Nat.toDigits 10 d.digits.natAbs :=
  baseChars_marked (d.toList_text_large hz hs hl) (fun c hc ↦ .inl (d.isDigit_digits c hc)) (by decide)

theorem spells_text_large : Spells d.text d.digits 0 (-d.scale) := by
  have hb := readBase?_signed (decide (d.digits < 0)) Nat.toDigits_ne_nil d.isDigit_digits
  rw [ofDigits_toDigits, signed_natAbs] at hb
  refine ⟨by rw [d.baseChars_text_large hz hs hl, hb], ?_⟩
  rw [exponentChars_marked (d.toList_text_large hz hs hl) (fun c hc ↦ .inl (d.isDigit_digits c hc)) (by decide)]
  exact isExponent_plus _ (by omega)

end Large

theorem exists_spells_text_plain (hz : d.digits ≠ 0) (hs : ¬(d.digitCount : ℤ) + 5 < d.scale) (hl : ¬d.scale < -15) :
    ∃ digits, Spells d.text digits d.scale.toNat 0 ∧ value ⟨digits, d.scale.toNat⟩ = d.value := by
  have ht : d.text.toList =
      signChars (decide (d.digits < 0)) ++ plainDecimal (Nat.toDigits 10 d.digits.natAbs) (-d.scale) := by
    rw [digitCount] at hs
    rw [text, if_neg hz, if_neg hs, if_neg hl, String.toList_append, toList_signText, String.toList_ofList]
  obtain ⟨digits, hb, hv⟩ := exists_readBase?_plainDecimal (decide (d.digits < 0)) d.digits.natAbs (-d.scale)
  rw [neg_neg] at hb hv
  refine ⟨digits, spells_plain ht (fun c ↦ mem_plainDecimal d.isDigit_digits) hb, ?_⟩
  rw [hv, signed_natAbs]

theorem digitCount_pos : 0 < d.digitCount := Nat.length_toDigits_pos

theorem exists_spells_text : ∃ digits places exponent, Spells d.text digits places exponent ∧
    value ⟨digits, places - exponent⟩ = d.value := by
  by_cases hz : d.digits = 0
  · refine ⟨0, 0, 0, d.spells_text_zero hz, ?_⟩
    rw [value_eq_zero_iff.2 hz]
    exact value_whole 0
  by_cases hs : (d.digitCount : ℤ) + 5 < d.scale
  · refine ⟨_, _, _, d.spells_text_small hz hs, ?_⟩
    have hc := d.digitCount_pos
    rw [show ((d.digitCount - 1 : ℕ) : ℤ) - (d.digitCount - 1 - d.scale) = d.scale by omega]
  by_cases hl : d.scale < -15
  · refine ⟨_, _, _, d.spells_text_large hz hs hl, ?_⟩
    rw [Nat.cast_zero, zero_sub, neg_neg]
  · obtain ⟨digits, h, hv⟩ := d.exists_spells_text_plain hz hs hl
    exact ⟨digits, _, 0, h, by rw [sub_zero, hv]⟩

end Decimal

def Binary64.decimal (x : Binary64) : Decimal := ⟨Text.signed x.isNegative x.shortest.digits, -x.shortest.exponent⟩

theorem Binary64.spells_text {x : Binary64} (h : x.isFinite) :
    ∃ digits places, Decimal.Spells x.text digits places 0 ∧ Decimal.value ⟨digits, places⟩ = x.decimal.value := by
  have ht : x.text.toList =
      Decimal.signChars x.isNegative ++ plainDecimal (Nat.toDigits 10 x.shortest.digits) x.shortest.exponent := by
    have hf : x.magnitude < FloatFormat.binary64.infinity := of_decide_eq_true h
    have hn : ¬x.isNaN := by simpa [isNaN] using hf.le
    have hi : ¬x.isInfinite := by simpa [isInfinite] using hf.ne
    rw [text, if_neg hn, if_neg hi, String.toList_append, String.toList_ofList, signText, Decimal.signChars]
    split <;> rfl
  obtain ⟨digits, hb, hv⟩ :=
    Decimal.exists_readBase?_plainDecimal x.isNegative x.shortest.digits x.shortest.exponent
  exact ⟨digits, _, Decimal.spells_plain ht (fun c ↦ Decimal.mem_plainDecimal fun c ↦ Text.isDigit_of_mem_toDigits) hb, hv⟩

end Upsert
