import Upsert.Number.Numeric
import Upsert.Proofs.Number.Spelling

namespace Upsert.Numeric

open Text

namespace Scan

def push (s : Scan) (c : Char) : Scan :=
  match digit? c with
  | some d => { s with mantissa := s.mantissa * 10 + d, scale := if s.point then s.scale + 1 else 0, any := true }
  | none => s

def pushAll (s : Scan) (cs : List Char) : Scan := cs.foldl push s

def Full (s : Scan) (c : Char) : Prop :=
  s.point ∧ (maxScale ≤ s.scale ∨ ∃ d, digit? c = some d ∧ limit ≤ s.mantissa * 10 + d)

variable {s : Scan} {c : Char} {cs front back tail : List Char} {n : Numeric}

@[simp] theorem push_point : (s.push c).point = s.point := by
  rw [push]
  split <;> rfl

@[simp] theorem push_negative : (s.push c).negative = s.negative := by
  rw [push]
  split <;> rfl

@[simp] theorem pushAll_point : (s.pushAll cs).point = s.point := by
  induction cs generalizing s with
  | nil => rfl
  | cons c cs ih => exact ih.trans push_point

@[simp] theorem pushAll_negative : (s.pushAll cs).negative = s.negative := by
  induction cs generalizing s with
  | nil => rfl
  | cons c cs ih => exact ih.trans push_negative

theorem pushAll_mantissa :
    (s.pushAll cs).mantissa = s.mantissa * 10 ^ cs.countP isDigit + ofDigits (cs.filter isDigit) := by
  induction cs generalizing s with
  | nil => simp [pushAll, ofDigits]
  | cons c cs ih =>
    rw [pushAll, List.foldl_cons, ← pushAll, ih, push]
    cases hd : digit? c with
    | none =>
      have hc : ¬isDigit c := by simp [isDigit, hd]
      rw [List.countP_cons_of_neg hc, List.filter_cons_of_neg hc]
    | some d =>
      have hc : isDigit c := by simp [isDigit, hd]
      rw [List.countP_cons_of_pos hc, List.filter_cons_of_pos hc, ofDigits_cons, hd, ← List.countP_eq_length_filter,
        Option.getD_some, pow_succ]
      ring

theorem pushAll_scale (hp : s.point) : (s.pushAll cs).scale = s.scale + cs.countP isDigit := by
  induction cs generalizing s with
  | nil => rfl
  | cons c cs ih =>
    rw [pushAll, List.foldl_cons, ← pushAll, ih (push_point.trans hp), push]
    cases hd : digit? c with
    | none =>
      have hc : ¬isDigit c := by simp [isDigit, hd]
      rw [List.countP_cons_of_neg hc]
    | some d =>
      have hc : isDigit c := by simp [isDigit, hd]
      rw [List.countP_cons_of_pos hc]
      simp only [hp, if_true]
      omega

theorem pushAll_scale_whole (hp : s.point = false) (hs : s.scale = 0) : (s.pushAll cs).scale = 0 := by
  induction cs generalizing s with
  | nil => exact hs
  | cons c cs ih =>
    refine ih (push_point.trans hp) ?_
    rw [push]
    split
    · simp [hp]
    · exact hs

theorem run?_of_full (h : s.Full c) : s.run? (c :: cs) = s.rounded? c := by
  obtain ⟨hp, h⟩ := h
  rw [run?]
  split
  · rfl
  · next hs =>
    obtain h | ⟨d, hd, hm⟩ := h
    · exact absurd (by simp [hp, h]) hs
    · simp only [hd, if_pos hm, hp]

theorem run?_of_not_full (hc : isDigit c ∨ c = '_') (hf : ¬s.Full c) (h : s.run? (c :: cs) = some n) :
    (∀ more, s.run? (c :: more) = (s.push c).run? more) ∧ (s.mantissa < limit → (s.push c).mantissa < limit) := by
  have hs : ¬(s.point && maxScale ≤ s.scale) := by
    intro h
    rw [Bool.and_eq_true, decide_eq_true_eq] at h
    exact hf ⟨h.1, .inl h.2⟩
  cases hd : digit? c with
  | some d =>
    have hm : ¬limit ≤ s.mantissa * 10 + d := by
      intro hm
      rw [run?, if_neg hs] at h
      simp only [hd, if_pos hm] at h
      split at h
      · next hp => exact hf ⟨hp, .inr ⟨d, hd, hm⟩⟩
      · cases h
    refine ⟨fun more ↦ ?_, fun _ ↦ ?_⟩
    · rw [run?, if_neg hs]
      simp only [hd, if_neg hm, push]
    · simpa [push, hd] using hm
  | none =>
    obtain rfl : c = '_' := hc.resolve_left (by simp [isDigit, hd])
    have hp : push s '_' = s := by simp [push, hd]
    rw [hp]
    have hr : ∀ more, s.run? ('_' :: more) = if s.any then s.run? more else none := by
      intro more
      rw [run?, if_neg hs]
      simp [hd]
    have ha : s.any := by
      by_contra ha
      rw [hr, if_neg ha] at h
      cases h
    exact ⟨fun more ↦ (hr more).trans (if_pos ha), id⟩

theorem digit?_mark (hc : Decimal.isExponentMark c) : digit? c = none := by
  rw [Decimal.isExponentMark, Bool.or_eq_true, beq_iff_eq, beq_iff_eq] at hc
  obtain rfl | rfl := hc <;> decide

theorem run?_mark (hc : Decimal.isExponentMark c) : s.run? (c :: cs) = none := by
  have hd := digit?_mark hc
  rw [Decimal.isExponentMark, Bool.or_eq_true, beq_iff_eq, beq_iff_eq] at hc
  have hr : s.rounded? c = none := by obtain rfl | rfl := hc <;> simp [rounded?, hd]
  rw [run?, hr]
  obtain rfl | rfl := hc <;> simp [hd]

theorem run?_whole (hp : s.point = false) (hcs : ∀ c ∈ cs, isDigit c ∨ c = '_') (h : s.run? (cs ++ tail) = some n) :
    (∀ more, s.run? (cs ++ more) = (s.pushAll cs).run? more) ∧
      (s.mantissa < limit → (s.pushAll cs).mantissa < limit) := by
  induction cs generalizing s with
  | nil => exact ⟨fun _ ↦ rfl, id⟩
  | cons c cs ih =>
    have hf : ¬s.Full c := by
      rintro ⟨h, -⟩
      simp [hp] at h
    obtain ⟨hr, hm⟩ := run?_of_not_full (hcs c List.mem_cons_self) hf h
    rw [List.cons_append, hr] at h
    obtain ⟨hr', hm'⟩ := ih (push_point.trans hp) (fun c hc ↦ hcs c (List.mem_cons_of_mem _ hc)) h
    exact ⟨fun more ↦ (hr _).trans (hr' more), fun hl ↦ hm' (hm hl)⟩

/-- The fraction has been read to its end, and with it the text. -/
structure Through (s : Scan) (cs tail : List Char) (n : Numeric) : Prop where
  tail : tail = []
  result : (s.pushAll cs).result? = some n
  lt : (s.pushAll cs).mantissa < limit
  room : ∀ front c back, cs = front ++ c :: back → ¬(s.pushAll front).Full c

/-- The reading has ended inside the fraction. -/
structure Stopped (s : Scan) (cs : List Char) (n : Numeric) (front : List Char) (c : Char) (back : List Char) : Prop where
  split : cs = front ++ c :: back
  lt : (s.pushAll front).mantissa < limit
  full : (s.pushAll front).Full c
  rounded : (s.pushAll front).rounded? c = some n
  run : ∀ more, s.run? (cs ++ more) = some n

theorem run?_fraction (hcs : ∀ c ∈ cs, isDigit c ∨ c = '_') (ht : ∀ c ∈ tail.head?, Decimal.isExponentMark c)
    (hm : s.mantissa < limit) (h : s.run? (cs ++ tail) = some n) :
    s.Through cs tail n ∨ ∃ front c back, s.Stopped cs n front c back := by
  induction cs generalizing s with
  | nil =>
    cases tail with
    | nil => exact .inl ⟨rfl, h, hm, by simp⟩
    | cons c tail =>
      rw [List.nil_append, run?_mark (ht c rfl)] at h
      cases h
  | cons c cs ih =>
    by_cases hf : s.Full c
    · rw [List.cons_append, run?_of_full hf] at h
      exact .inr ⟨[], c, cs, rfl, hm, hf, h, fun more ↦ (run?_of_full hf).trans h⟩
    · obtain ⟨hr, hm'⟩ := run?_of_not_full (hcs c List.mem_cons_self) hf h
      rw [List.cons_append, hr] at h
      obtain ht | ⟨front, c', back, hs⟩ := ih (fun c hc ↦ hcs c (List.mem_cons_of_mem _ hc)) (hm' hm) h
      · refine .inl ⟨ht.tail, ht.result, ht.lt, ?_⟩
        intro front c' back he
        cases front with
        | nil =>
          cases he
          exact hf
        | cons _ front =>
          cases he
          exact ht.room front c' back rfl
      · exact .inr ⟨c :: front, c', back, congrArg _ hs.split, hs.lt, hs.full, hs.rounded, fun more ↦ (hr _).trans (hs.run more)⟩

end Scan

end Upsert.Numeric
