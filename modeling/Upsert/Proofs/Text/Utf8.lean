import Mathlib.Tactic.SplitIfs
import Upsert.Proofs.Except
import Upsert.Text.Utf8

namespace Upsert.Text

theorem utf8Lead_two {v : Nat} (hl : 127 < v) (hh : v ≤ 2047) :
    utf8Lead (v / 64 + 192) = some (1, 0x80, 0xBF) := by
  rw [utf8Lead, if_pos (by omega)]

/-- The bounds of the second octet let pass all but the surrogates. -/
theorem utf8Lead_three {v : Nat} (hl : 2047 < v) (hh : v ≤ 65535) (hs : v < 0xD800 ∨ 0xDFFF < v) :
    ∃ low high, utf8Lead (v / 4096 + 224) = some (2, low, high) ∧
      low ≤ v / 64 % 64 + 128 ∧ v / 64 % 64 + 128 ≤ high := by
  unfold utf8Lead
  split_ifs <;> first | omega | exact ⟨_, _, rfl, by omega, by omega⟩

theorem utf8Lead_four {v : Nat} (hl : 65535 < v) (hh : v < 0x110000) :
    ∃ low high, utf8Lead (v / 262144 + 240) = some (3, low, high) ∧
      low ≤ v / 4096 % 64 + 128 ∧ v / 4096 % 64 + 128 ≤ high := by
  unfold utf8Lead
  split_ifs <;> first | omega | exact ⟨_, _, rfl, by omega, by omega⟩

theorem toNat_ofNat_of_lt {n : Nat} (h : n < 256) : (UInt8.ofNat n).toNat = n := by
  rw [UInt8.toNat_ofNat', Nat.mod_eq_of_lt h]

theorem utf8Follows_ofNat (n : Nat) : utf8Follows (UInt8.ofNat (n % 64 + 128)) = true := by
  rw [utf8Follows, toNat_ofNat_of_lt (by omega)]
  simp only [Bool.and_eq_true, decide_eq_true_eq]
  omega

theorem decodeUtf8_utf8EncodeChar (index : Nat) (c : Char) (rest : List UInt8) :
    decodeUtf8 index (String.utf8EncodeChar c ++ rest) =
      (c :: ·) <$> decodeUtf8 (index + (String.utf8EncodeChar c).length) rest := by
  have hc : Char.ofNat c.val.toNat = c := c.ofNat_toNat
  have hv : c.val.toNat < 0xD800 ∨ 0xDFFF < c.val.toNat ∧ c.val.toNat < 0x110000 := c.valid
  simp only [String.utf8EncodeChar]
  generalize c.val.toNat = v at hc hv ⊢
  split_ifs with h₁ h₂ h₃
  · have ha := toNat_ofNat_of_lt (show v < 256 by omega)
    rw [List.cons_append, decodeUtf8, ha, if_pos (by omega), hc]
    rfl
  · have ha := toNat_ofNat_of_lt (show v / 64 % 32 + 192 < 256 by omega)
    have hb := toNat_ofNat_of_lt (show v % 64 + 128 < 256 by omega)
    rw [Nat.mod_eq_of_lt (show v / 64 < 32 by omega)] at ha ⊢
    rw [List.cons_append, decodeUtf8, ha, if_neg (by omega), utf8Lead_two (Nat.lt_of_not_le h₁) h₂]
    simp only [List.cons_append, List.nil_append, hb]
    rw [if_neg (by omega), if_pos trivial,
      show (v / 64 + 192 - 192) * 64 + (v % 64 + 128 - 128) = v by omega, hc]
    rfl
  · have ha := toNat_ofNat_of_lt (show v / 4096 % 16 + 224 < 256 by omega)
    have hb := toNat_ofNat_of_lt (show v / 64 % 64 + 128 < 256 by omega)
    have hd := toNat_ofNat_of_lt (show v % 64 + 128 < 256 by omega)
    obtain ⟨low, high, hl, hlow, hhigh⟩ := utf8Lead_three (Nat.lt_of_not_le h₂) h₃ (by omega)
    rw [Nat.mod_eq_of_lt (show v / 4096 < 16 by omega)] at ha ⊢
    rw [List.cons_append, decodeUtf8, ha, if_neg (by omega), hl]
    simp only [List.cons_append, List.nil_append, hb, hd, utf8Follows_ofNat]
    rw [if_neg (by omega), if_neg (by omega), if_neg (by decide), if_pos trivial,
      show (v / 4096 + 224 - 224) * 4096 + (v / 64 % 64 + 128 - 128) * 64 + (v % 64 + 128 - 128) = v by
        omega, hc]
    rfl
  · have ha := toNat_ofNat_of_lt (show v / 262144 % 8 + 240 < 256 by omega)
    have hb := toNat_ofNat_of_lt (show v / 4096 % 64 + 128 < 256 by omega)
    have hd := toNat_ofNat_of_lt (show v / 64 % 64 + 128 < 256 by omega)
    have he := toNat_ofNat_of_lt (show v % 64 + 128 < 256 by omega)
    obtain ⟨low, high, hl, hlow, hhigh⟩ := utf8Lead_four (Nat.lt_of_not_le h₃) (by omega)
    rw [Nat.mod_eq_of_lt (show v / 262144 < 8 by omega)] at ha ⊢
    rw [List.cons_append, decodeUtf8, ha, if_neg (by omega), hl]
    simp only [List.cons_append, List.nil_append, hb, hd, he, utf8Follows_ofNat]
    rw [if_neg (by omega), if_neg (by omega), if_neg (by decide), if_neg (by omega), if_neg (by decide),
      show (v / 262144 + 240 - 240) * 262144 + (v / 4096 % 64 + 128 - 128) * 4096 +
        (v / 64 % 64 + 128 - 128) * 64 + (v % 64 + 128 - 128) = v by omega, hc]
    rfl

theorem decodeUtf8_flatMap (index : Nat) (cs : List Char) :
    decodeUtf8 index (cs.flatMap String.utf8EncodeChar) = .ok cs := by
  induction cs generalizing index with
  | nil => rfl
  | cons c cs ih =>
    rw [List.flatMap_cons, decodeUtf8_utf8EncodeChar, ih]
    rfl

theorem ofUtf8_utf8 (s : String) : ofUtf8 (utf8 s) = .ok s := by
  rw [ofUtf8, utf8, decodeUtf8_flatMap]
  exact congrArg Except.ok String.ofList_toList

theorem toNat_val_ofNat {v : Nat} (h : v.isValidChar) : (Char.ofNat v).val.toNat = v := by
  rw [Char.ofNat, dif_pos h]
  exact UInt32.toNat_ofNatLT

theorem ofNat_eq {n : Nat} {o : UInt8} (h : n = o.toNat) : UInt8.ofNat n = o := by
  rw [h, UInt8.ofNat_toNat]

theorem utf8EncodeChar_one {a : UInt8} (h : a.toNat < 0x80) : String.utf8EncodeChar (Char.ofNat a.toNat) = [a] := by
  have hv : a.toNat.isValidChar := .inl (by omega)
  simp only [String.utf8EncodeChar, toNat_val_ofNat hv]
  rw [if_pos (by omega), ofNat_eq rfl]

theorem utf8Lead_cases {n follow low high : Nat} (h : utf8Lead n = some (follow, low, high)) :
    follow = 1 ∧ 0xC2 ≤ n ∧ n ≤ 0xDF ∧ low = 0x80 ∧ high = 0xBF ∨
    follow = 2 ∧ 0xE0 ≤ n ∧ n ≤ 0xEF ∧ 0x80 ≤ low ∧ high ≤ 0xBF ∧ (n = 0xE0 → low = 0xA0) ∧ (n = 0xED → high = 0x9F) ∨
    follow = 3 ∧ 0xF0 ≤ n ∧ n ≤ 0xF4 ∧ 0x80 ≤ low ∧ high ≤ 0xBF ∧ (n = 0xF0 → low = 0x90) ∧
      (n = 0xF4 → high = 0x8F) := by
  unfold utf8Lead at h
  split_ifs at h <;> cases h <;> omega

variable {a b c d : UInt8} {low high : Nat}

theorem utf8EncodeChar_two (ha : 0xC2 ≤ a.toNat ∧ a.toNat ≤ 0xDF) (hb : 0x80 ≤ b.toNat ∧ b.toNat ≤ 0xBF) :
    String.utf8EncodeChar (Char.ofNat ((a.toNat - 0xC0) * 64 + (b.toNat - 0x80))) = [a, b] := by
  obtain ⟨v, hv⟩ : ∃ v, v = (a.toNat - 0xC0) * 64 + (b.toNat - 0x80) := ⟨_, rfl⟩
  have hc : v.isValidChar := .inl (by omega)
  simp only [← hv, String.utf8EncodeChar, toNat_val_ofNat hc]
  rw [if_neg (by omega), if_pos (by omega), ofNat_eq (o := a) (by omega), ofNat_eq (o := b) (by omega)]

theorem utf8EncodeChar_three (ha : 0xE0 ≤ a.toNat ∧ a.toNat ≤ 0xEF) (hb : 0x80 ≤ b.toNat ∧ b.toNat ≤ 0xBF)
    (hl : a.toNat = 0xE0 → 0xA0 ≤ b.toNat) (hs : a.toNat = 0xED → b.toNat ≤ 0x9F)
    (hc : 0x80 ≤ c.toNat ∧ c.toNat ≤ 0xBF) :
    String.utf8EncodeChar (Char.ofNat ((a.toNat - 0xE0) * 4096 + (b.toNat - 0x80) * 64 + (c.toNat - 0x80))) =
      [a, b, c] := by
  obtain ⟨v, hv⟩ : ∃ v, v = (a.toNat - 0xE0) * 4096 + (b.toNat - 0x80) * 64 + (c.toNat - 0x80) := ⟨_, rfl⟩
  have hd : v.isValidChar := by
    rcases Nat.lt_or_ge a.toNat 0xED with h | h
    · exact .inl (by omega)
    · rcases Nat.eq_or_lt_of_le h with h | h
      · exact .inl (by omega)
      · exact .inr ⟨by omega, by omega⟩
  simp only [← hv, String.utf8EncodeChar, toNat_val_ofNat hd]
  rw [if_neg (by omega), if_neg (by omega), if_pos (by omega), ofNat_eq (o := a) (by omega),
    ofNat_eq (o := b) (by omega), ofNat_eq (o := c) (by omega)]

theorem utf8EncodeChar_four (ha : 0xF0 ≤ a.toNat ∧ a.toNat ≤ 0xF4) (hb : 0x80 ≤ b.toNat ∧ b.toNat ≤ 0xBF)
    (hl : a.toNat = 0xF0 → 0x90 ≤ b.toNat) (hs : a.toNat = 0xF4 → b.toNat ≤ 0x8F)
    (hc : 0x80 ≤ c.toNat ∧ c.toNat ≤ 0xBF) (hd : 0x80 ≤ d.toNat ∧ d.toNat ≤ 0xBF) :
    String.utf8EncodeChar (Char.ofNat ((a.toNat - 0xF0) * 262144 + (b.toNat - 0x80) * 4096 +
      (c.toNat - 0x80) * 64 + (d.toNat - 0x80))) = [a, b, c, d] := by
  obtain ⟨v, hv⟩ : ∃ v, v = (a.toNat - 0xF0) * 262144 + (b.toNat - 0x80) * 4096 + (c.toNat - 0x80) * 64 +
    (d.toNat - 0x80) := ⟨_, rfl⟩
  have he : v.isValidChar := .inr ⟨by omega, by omega⟩
  simp only [← hv, String.utf8EncodeChar, toNat_val_ofNat he]
  rw [if_neg (by omega), if_neg (by omega), if_neg (by omega), ofNat_eq (o := a) (by omega),
    ofNat_eq (o := b) (by omega), ofNat_eq (o := c) (by omega), ofNat_eq (o := d) (by omega)]

theorem utf8Follows_iff : utf8Follows c = true ↔ 0x80 ≤ c.toNat ∧ c.toNat ≤ 0xBF := by
  simp [utf8Follows]

theorem eq_flatMap_of_cons {x : Except Utf8Fault (List Char)} {ch : Char} {front rest : List UInt8} {cs : List Char}
    (h : (do return ch :: (← x)) = .ok cs) (hf : String.utf8EncodeChar ch = front)
    (ih : ∀ {cs}, x = .ok cs → rest = cs.flatMap String.utf8EncodeChar) :
    front ++ rest = cs.flatMap String.utf8EncodeChar := by
  obtain ⟨ds, hd, h⟩ := Except.bind_eq_ok_iff.1 h
  cases h
  rw [List.flatMap_cons, hf, ← ih hd]

theorem eq_flatMap_of_decodeUtf8 {index : Nat} {os : List UInt8} {cs : List Char} (h : decodeUtf8 index os = .ok cs) :
    os = cs.flatMap String.utf8EncodeChar := by
  fun_induction decodeUtf8 index os generalizing cs with
  | case1 index =>
    cases h
    rfl
  | case2 index a rest ha ih => exact eq_flatMap_of_cons h (utf8EncodeChar_one ha) ih
  | case6 index a _ low high b rest hb hlead ih =>
    refine eq_flatMap_of_cons h (utf8EncodeChar_two ?_ ?_) ih <;>
    · have := utf8Lead_cases hlead
      omega
  | case9 index a _ low high b hb c rest hc hlead _ ih =>
    have hc := utf8Follows_iff.1 (by simpa using hc)
    refine eq_flatMap_of_cons h (utf8EncodeChar_three ?_ ?_ ?_ ?_ hc) ih <;>
    · have := utf8Lead_cases hlead
      omega
  | case12 index a _ follow low high hlead b hb h₁ c hc h₂ d rest hd ih =>
    have hc := utf8Follows_iff.1 (by simpa using hc)
    have hd := utf8Follows_iff.1 (by simpa using hd)
    refine eq_flatMap_of_cons h (utf8EncodeChar_four ?_ ?_ ?_ ?_ hc hd) ih <;>
    · have := utf8Lead_cases hlead
      omega
  | _ => cases h

theorem ofUtf8_eq_ok_iff {os : List UInt8} {s : String} : ofUtf8 os = .ok s ↔ os = utf8 s := by
  constructor
  · intro h
    obtain ⟨cs, hc, rfl⟩ := Except.map_eq_ok_iff.1 h
    rw [utf8, String.toList_ofList]
    exact eq_flatMap_of_decodeUtf8 hc
  · rintro rfl
    exact ofUtf8_utf8 s

end Upsert.Text
