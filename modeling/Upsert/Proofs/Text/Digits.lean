import Mathlib.Data.Nat.Basic
import Mathlib.Tactic.Ring
import Upsert.Proofs.Except
import Upsert.Text.Digits

namespace Upsert.Text

variable {c : Char} {cs ds : List Char} {d : ℕ}

theorem digit?_eq_some (h : '0' ≤ c ∧ c ≤ '9') : digit? c = some (c.toNat - '0'.toNat) := if_pos h

theorem isDigit_iff : isDigit c ↔ '0' ≤ c ∧ c ≤ '9' := by
  rw [isDigit, digit?]
  split
  · next h => simp [h]
  · next h => simp [h]

theorem lt_of_digit? (h : digit? c = some d) : d < 10 := by
  rw [digit?] at h
  split at h
  · next hc =>
    have hle : c.toNat ≤ '9'.toNat := hc.2
    cases h
    exact Nat.sub_lt_right_of_lt_add (show '0'.toNat ≤ c.toNat from hc.1) (Nat.lt_succ_of_le hle)
  · cases h

theorem isDigit_of_mem_toDigits {n : ℕ} (h : c ∈ Nat.toDigits 10 n) : isDigit c := by
  have hd := Nat.isDigit_of_mem_toDigits (by decide) (by decide) h
  rw [Char.isDigit, Bool.and_eq_true, decide_eq_true_eq, decide_eq_true_eq] at hd
  exact isDigit_iff.2 hd

theorem foldl_digits (cs : List Char) (n : ℕ) :
    cs.foldl (fun n c ↦ n * 10 + (digit? c).getD 0) n = n * 10 ^ cs.length + ofDigits cs := by
  induction cs generalizing n with
  | nil => simp [ofDigits]
  | cons c cs ih =>
    rw [ofDigits, List.foldl_cons, List.foldl_cons, ih, ih (0 * 10 + _), List.length_cons, pow_succ]
    ring

theorem ofDigits_append (cs ds : List Char) : ofDigits (cs ++ ds) = ofDigits cs * 10 ^ ds.length + ofDigits ds := by
  rw [ofDigits, List.foldl_append, foldl_digits]
  rfl

theorem ofDigits_cons (c : Char) (cs : List Char) : ofDigits (c :: cs) = (digit? c).getD 0 * 10 ^ cs.length + ofDigits cs := by
  have h := ofDigits_append [c] cs
  simpa [ofDigits] using h

theorem ofDigits_lt (cs : List Char) : ofDigits cs < 10 ^ cs.length := by
  induction cs with
  | nil => exact Nat.one_pos
  | cons c cs ih =>
    have hc : (digit? c).getD 0 ≤ 9 := by
      cases h : digit? c with
      | none => exact Nat.zero_le 9
      | some d => exact Nat.le_of_lt_succ (lt_of_digit? h)
    have hm := Nat.mul_le_mul_right (10 ^ cs.length) hc
    rw [ofDigits_cons, List.length_cons, pow_succ]
    omega

theorem ofDigits_replicate_zero (n : ℕ) : ofDigits (List.replicate n '0') = 0 := by
  induction n with
  | zero => rfl
  | succ n ih =>
    rw [List.replicate_succ, ofDigits_cons, ih]
    simp [digit?]

theorem ofDigits_toDigits (n : ℕ) : ofDigits (Nat.toDigits 10 n) = n := by
  have hf : ∀ cs : List Char, (∀ c ∈ cs, isDigit c) → ∀ n, Nat.ofDigitChars 10 cs n =
      cs.foldl (fun n c ↦ n * 10 + (digit? c).getD 0) n := by
    intro cs
    induction cs with
    | nil => exact fun _ _ ↦ rfl
    | cons c cs ih =>
      intro hcs n
      have hc := digit?_eq_some (isDigit_iff.1 (hcs c List.mem_cons_self))
      rw [List.foldl_cons, hc, ← ih fun c h ↦ hcs c (List.mem_cons_of_mem _ h)]
      rw [Nat.ofDigitChars, List.foldl_cons, mul_comm]
      rfl
  rw [ofDigits, ← hf _ fun c ↦ isDigit_of_mem_toDigits]
  exact Nat.ofDigitChars_toDigits (by decide) (by decide)

def signed (negative : Bool) (n : ℕ) : ℤ := if negative then -n else n

@[simp] theorem natAbs_signed (negative : Bool) (n : ℕ) : (signed negative n).natAbs = n := by cases negative <;> simp [signed]

theorem signed_natAbs (n : ℤ) : signed (decide (n < 0)) n.natAbs = n := by
  rw [signed]
  split
  · next h =>
    have := of_decide_eq_true h
    omega
  · next h =>
    have := of_decide_eq_false (Bool.eq_false_iff.2 h)
    omega

theorem signed_mul (negative : Bool) (m k : ℕ) : signed negative (m * k) = signed negative m * k := by
  cases negative <;> simp [signed]

variable {least greatest n : ℤ} {negative : Bool} {a : ℕ}

theorem readDigits_cons (hd : digit? c = some d) : readDigits least greatest negative (signed negative a) (c :: cs) =
    if greatest < signed negative (a * 10 + d) then .error .tooLarge
    else if signed negative (a * 10 + d) < least then .error .tooSmall
    else readDigits least greatest negative (signed negative (a * 10 + d)) cs := by
  have hn : (if negative then signed negative a * 10 - d else signed negative a * 10 + d) = signed negative (a * 10 + d) := by
    cases negative <;> simp only [signed, if_true, Bool.false_eq_true, if_false] <;> push_cast <;> ring
  simp only [readDigits, hd, hn]

theorem ofDigits_step (hd : digit? c = some d) :
    a * 10 ^ (c :: cs).length + ofDigits (c :: cs) = (a * 10 + d) * 10 ^ cs.length + ofDigits cs := by
  rw [ofDigits_cons, hd, Option.getD_some, List.length_cons, pow_succ]
  ring

theorem readDigits_eq_ok (h : readDigits least greatest negative (signed negative a) cs = .ok n) :
    (∀ c ∈ cs, isDigit c) ∧ n = signed negative (a * 10 ^ cs.length + ofDigits cs) := by
  induction cs generalizing a with
  | nil =>
    cases h
    simp [ofDigits]
  | cons c cs ih =>
    cases hd : digit? c with
    | none =>
      simp only [readDigits, hd] at h
      cases h
    | some d =>
      rw [readDigits_cons hd] at h
      split at h
      · cases h
      · split at h
        · cases h
        · obtain ⟨hcs, hn⟩ := ih h
          have hc : isDigit c := by rw [isDigit, hd]; rfl
          rw [ofDigits_step hd]
          exact ⟨List.forall_mem_cons.2 ⟨hc, hcs⟩, hn⟩

theorem readDigits_bounds (h : readDigits least greatest negative (signed negative a) cs = .ok n)
    (ha : least ≤ signed negative a ∧ signed negative a ≤ greatest) : least ≤ n ∧ n ≤ greatest := by
  induction cs generalizing a with
  | nil =>
    cases h
    exact ha
  | cons c cs ih =>
    cases hd : digit? c with
    | none =>
      simp only [readDigits, hd] at h
      cases h
    | some d =>
      rw [readDigits_cons hd] at h
      split at h
      · cases h
      · split at h
        · cases h
        · exact ih h (by omega)

def splitSign : List Char → Bool × List Char
  | '-' :: cs => (true, cs)
  | '+' :: cs => (false, cs)
  | cs => (false, cs)

theorem splitSign_of_unsigned (hm : ∀ ds, cs ≠ '-' :: ds) (hp : ∀ ds, cs ≠ '+' :: ds) : splitSign cs = (false, cs) := by
  rw [splitSign.eq_def]
  split
  · exact absurd rfl (hm _)
  · exact absurd rfl (hp _)
  · rfl

theorem splitSign_cases (h : splitSign cs = (negative, ds)) :
    cs = '-' :: ds ∧ negative = true ∨ cs = '+' :: ds ∧ negative = false ∨
      cs = ds ∧ negative = false ∧ (∀ ds, cs ≠ '-' :: ds) ∧ ∀ ds, cs ≠ '+' :: ds := by
  rw [splitSign.eq_def] at h
  split at h
  · cases h
    exact .inl ⟨rfl, rfl⟩
  · cases h
    exact .inr (.inl ⟨rfl, rfl⟩)
  · next hm hp =>
    cases h
    exact .inr (.inr ⟨rfl, rfl, hm, hp⟩)

theorem splitSign_of_head (h : ∀ c ∈ cs.head?, isDigit c) : splitSign cs = (false, cs) := by
  refine splitSign_of_unsigned ?_ ?_ <;>
  · rintro ds rfl
    exact absurd (h _ rfl) (by decide)

theorem splitSign_of_isDigit (h : ∀ c ∈ cs, isDigit c) : splitSign cs = (false, cs) :=
  splitSign_of_head fun c hc ↦ h c (List.mem_of_head? hc)

theorem readInteger_eq_ok_iff {s : String} (hs : splitSign s.toList = (negative, ds)) :
    readInteger least greatest s = .ok n ↔
      ds ≠ [] ∧ (negative → least < 0) ∧ readDigits least greatest negative (signed negative 0) ds = .ok n := by
  rw [readInteger]
  generalize s.toList = cs at hs ⊢
  split
  · cases hs
    simp
  · cases hs
    simp
  · cases hs
    simp
  · next hne =>
    cases hs
    exact ⟨fun h ↦ ⟨hne, nofun, h⟩, fun h ↦ h.2.2⟩
  · next hne =>
    cases hs
    by_cases hl : least < 0
    · rw [if_pos hl]
      exact ⟨fun h ↦ ⟨hne, fun _ ↦ hl, h⟩, fun h ↦ h.2.2⟩
    · rw [if_neg hl]
      exact ⟨nofun, fun h ↦ absurd (h.2.1 rfl) hl⟩
  · next hn _ _ hp hm =>
    rw [splitSign_of_unsigned hm hp] at hs
    cases hs
    exact ⟨fun h ↦ ⟨hn, nofun, h⟩, fun h ↦ h.2.2⟩

theorem readInteger_eq_ok {s : String} (hs : splitSign s.toList = (negative, ds))
    (h : readInteger least greatest s = .ok n) :
    ds ≠ [] ∧ (negative → least < 0) ∧ (∀ c ∈ ds, isDigit c) ∧ n = signed negative (ofDigits ds) := by
  obtain ⟨hne, hl, hr⟩ := (readInteger_eq_ok_iff hs).1 h
  obtain ⟨hds, hn⟩ := readDigits_eq_ok hr
  exact ⟨hne, hl, hds, by simpa using hn⟩

theorem readInt64_eq_ok {s : String} {n : Int64} (hs : splitSign s.toList = (negative, ds)) (h : readInt64 s = .ok n) :
    ds ≠ [] ∧ (∀ c ∈ ds, isDigit c) ∧ n.toInt = signed negative (ofDigits ds) := by
  obtain ⟨z, hz, rfl⟩ := Except.map_eq_ok_iff.1 h
  obtain ⟨hne, -, hds, hv⟩ := readInteger_eq_ok hs hz
  obtain ⟨-, -, hr⟩ := (readInteger_eq_ok_iff hs).1 hz
  have hb := readDigits_bounds hr (by cases negative <;> decide)
  rw [Int64.toInt_ofInt_of_le hb.1 (Int.lt_add_one_iff.2 hb.2)]
  exact ⟨hne, hds, hv⟩

theorem signed_bounds {m n : ℕ} (hmn : m ≤ n) (hl : least ≤ 0) (hg : 0 ≤ greatest)
    (h : least ≤ signed negative n ∧ signed negative n ≤ greatest) :
    least ≤ signed negative m ∧ signed negative m ≤ greatest := by
  cases negative
  · simp only [signed, Bool.false_eq_true, if_false] at h ⊢
    omega
  · simp only [signed, if_true] at h ⊢
    omega

theorem readDigits_of_bounds (hds : ∀ c ∈ cs, isDigit c) (hl : least ≤ 0) (hg : 0 ≤ greatest)
    (h : least ≤ signed negative (a * 10 ^ cs.length + ofDigits cs) ∧
      signed negative (a * 10 ^ cs.length + ofDigits cs) ≤ greatest) :
    readDigits least greatest negative (signed negative a) cs =
      .ok (signed negative (a * 10 ^ cs.length + ofDigits cs)) := by
  induction cs generalizing a with
  | nil => simp [readDigits, ofDigits]
  | cons c cs ih =>
    obtain ⟨hc, hcs⟩ := List.forall_mem_cons.1 hds
    obtain ⟨d, hd⟩ := Option.isSome_iff_exists.1 hc
    rw [ofDigits_step hd] at h ⊢
    have hle : a * 10 + d ≤ (a * 10 + d) * 10 ^ cs.length + ofDigits cs :=
      (Nat.le_mul_of_pos_right _ (Nat.pow_pos (by decide))).trans (Nat.le_add_right _ _)
    have hb := signed_bounds hle hl hg h
    rw [readDigits_cons hd, if_neg (by omega), if_neg (by omega), ih hcs h]

theorem readInteger_of_bounds {s : String} {ds : List Char} (hs : splitSign s.toList = (negative, ds)) (hne : ds ≠ [])
    (hds : ∀ c ∈ ds, isDigit c) (hl : least < 0) (hg : 0 ≤ greatest)
    (h : least ≤ signed negative (ofDigits ds) ∧ signed negative (ofDigits ds) ≤ greatest) :
    readInteger least greatest s = .ok (signed negative (ofDigits ds)) := by
  have hz : 0 * 10 ^ ds.length + ofDigits ds = ofDigits ds := by rw [Nat.zero_mul, Nat.zero_add]
  rw [readInteger_eq_ok_iff hs]
  refine ⟨hne, fun _ ↦ hl, ?_⟩
  rw [readDigits_of_bounds hds hl.le hg (by rwa [hz]), hz]

def EndsDigits (rest : List Char) : Prop := ∀ c ∈ rest.head?, isDigit c = false

variable {ds rest : List Char}

theorem takeWhile_isDigit (h : ∀ c ∈ ds, isDigit c) (hr : EndsDigits rest) : (ds ++ rest).takeWhile isDigit = ds := by
  rw [List.takeWhile_append_of_pos h]
  cases rest with
  | nil => simp
  | cons c rest => rw [List.takeWhile_cons_of_neg (by simp [hr c rfl]), List.append_nil]

theorem dropWhile_isDigit (h : ∀ c ∈ ds, isDigit c) (hr : EndsDigits rest) : (ds ++ rest).dropWhile isDigit = rest := by
  rw [List.dropWhile_append_of_pos h]
  cases rest with
  | nil => simp
  | cons c rest => rw [List.dropWhile_cons_of_neg (by simp [hr c rfl])]

end Upsert.Text
