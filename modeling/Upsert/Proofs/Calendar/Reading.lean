import Upsert.Calendar.Reading
import Upsert.Proofs.Calendar.Civil
import Upsert.Proofs.Number.Spelling

namespace Upsert

namespace Text

theorem toList_padded (width n : Nat) : (padded width (toString n)).toList =
    List.replicate (width - (Nat.toDigits 10 n).length) '0' ++ Nat.toDigits 10 n := by
  have ht : (toString n).toList = Nat.toDigits 10 n := Nat.toList_repr
  have hl : (toString n).length = (Nat.toDigits 10 n).length := by rw [← ht, String.length_toList]
  rw [padded, String.toList_append, String.toList_ofList, ht, hl]

theorem isDigit_padded (width n : Nat) : ∀ c ∈ (padded width (toString n)).toList, isDigit c := by
  intro c hc
  rw [toList_padded] at hc
  exact (List.mem_append.1 hc).elim (Decimal.isDigit_zeros _ c) isDigit_of_mem_toDigits

@[simp] theorem ofDigits_padded (width n : Nat) : ofDigits (padded width (toString n)).toList = n := by
  rw [toList_padded, ofDigits_append, ofDigits_replicate_zero, ofDigits_toDigits, Nat.zero_mul, Nat.zero_add]

theorem le_length_padded (width n : Nat) : width ≤ (padded width (toString n)).toList.length := by
  rw [toList_padded, List.length_append, List.length_replicate]
  omega

theorem length_padded {width n : Nat} (hw : 0 < width) (hn : n < 10 ^ width) :
    (padded width (toString n)).toList.length = width := by
  have hl := (Nat.length_toDigits_le_iff (by decide) hw).2 hn
  rw [toList_padded, List.length_append, List.length_replicate]
  omega

theorem exists_padded_cons {width : Nat} (hw : 0 < width) (n : Nat) :
    ∃ c cs, (padded width (toString n)).toList = c :: cs ∧ isDigit c := by
  have hl := le_length_padded width n
  obtain ⟨c, cs, hc⟩ := List.exists_cons_of_length_pos (show 0 < (padded width (toString n)).toList.length by omega)
  exact ⟨c, cs, hc, isDigit_padded width n c (hc ▸ List.mem_cons_self)⟩

theorem isBlank_of_isDigit {c : Char} (h : isDigit c) : isBlank c = false := by
  obtain ⟨hl, hh⟩ := isDigit_iff.1 h
  have hl : 48 ≤ c.toNat := hl
  have hh : c.toNat ≤ 57 := hh
  simp only [isBlank, blankRanges, List.any_cons, List.any_nil, Bool.or_false, Bool.or_eq_false_iff,
    Bool.and_eq_false_iff, decide_eq_false_iff_not]
  omega

theorem dropBlanks_cons {c : Char} {cs : List Char} (h : isBlank c = false) : dropBlanks (c :: cs) = c :: cs := by
  rw [dropBlanks, List.dropWhile_cons_of_neg (by simp [h])]

end Text

namespace Calendar

open Text

variable {ds rest : List Char} {least most n : Nat}

theorem digits_append (h : ∀ c ∈ ds, isDigit c) (hl : least ≤ ds.length) (hm : ds.length ≤ most)
    (hr : ds.length = most ∨ EndsDigits rest) :
    digits least most (ds ++ rest) = some (ofDigits ds, rest) := by
  have ht : ((ds ++ rest).take most).takeWhile isDigit = ds := by
    rw [List.take_append, List.take_of_length_le hm]
    apply takeWhile_isDigit h
    obtain rfl | hr := hr
    · simp [EndsDigits]
    · intro c hc
      rw [List.head?_take] at hc
      split at hc
      · cases hc
      · exact hr c hc
  rw [digits]
  simp only [ht]
  rw [if_pos hl, List.drop_left]

theorem number_padded (hn : n < 100) : number ((padded 2 (toString n)).toList ++ rest) = some (n, rest) := by
  have hl := length_padded (show 0 < 2 by decide) hn
  have hb : dropBlanks ((padded 2 (toString n)).toList ++ rest) = (padded 2 (toString n)).toList ++ rest := by
    obtain ⟨c, cs, hc, hd⟩ := exists_padded_cons (show 0 < 2 by decide) n
    rw [hc, List.cons_append, dropBlanks_cons (isBlank_of_isDigit hd)]
  rw [number, hb, digits_append (isDigit_padded 2 n) (by omega) hl.le (.inl hl), ofDigits_padded]

theorem mark_cons {c : Char} (h : isBlank c = false) : mark c (c :: rest) = some ((), rest) := by
  rw [mark, dropBlanks_cons h, literal, if_pos rfl]

theorem allDigits_padded {width : Nat} (hw : 0 < width) (n : Nat) (hr : EndsDigits rest) :
    allDigits ((padded width (toString n)).toList ++ rest) = some (n, rest) := by
  have hl := le_length_padded width n
  rw [allDigits, digits_append (isDigit_padded width n) (by omega) (by simp) (.inr hr), ofDigits_padded]

theorem year_of_isDigit {c : Char} {cs : List Char} (h : isDigit c) :
    year (c :: cs) = (digits 1 4 (c :: cs)).map fun x ↦ ((x.1 : Int), x.2) := by
  rw [year, dropBlanks_cons (isBlank_of_isDigit h)]
  split
  · next he =>
    cases he
    exact absurd h (by decide)
  · next he =>
    cases he
    exact absurd h (by decide)
  · rfl

theorem year_minus (cs : List Char) : year ('-' :: cs) = (allDigits cs).map fun x ↦ (-(x.1 : Int), x.2) := rfl

theorem year_plus (cs : List Char) : year ('+' :: cs) = (allDigits cs).map fun x ↦ ((x.1 : Int), x.2) := rfl

theorem year_yearText (y : Int) (hr : EndsDigits rest) : year ((Date.yearText y).toList ++ rest) = some (y, rest) := by
  have hw : 0 < 4 := by decide
  rw [Date.yearText]
  split_ifs with h hn
  · obtain ⟨c, cs, hc, hd⟩ := exists_padded_cons hw y.toNat
    have hl := length_padded hw (show y.toNat < 10 ^ 4 by omega)
    have hy : digits 1 4 ((padded 4 (toString y.toNat)).toList ++ rest) = some (y.toNat, rest) := by
      rw [digits_append (isDigit_padded 4 y.toNat) (by omega) hl.le (.inl hl), ofDigits_padded]
    rw [hc, List.cons_append] at hy ⊢
    rw [year_of_isDigit hd, hy, Option.map_some, Int.toNat_of_nonneg h.1]
  · have hy : -(y.natAbs : Int) = y := by omega
    have hs : ("-" : String).toList = ['-'] := rfl
    rw [String.toList_append, hs, List.singleton_append, List.cons_append, year_minus, allDigits_padded hw _ hr,
      Option.map_some, hy]
  · have hy : (y.natAbs : Int) = y := by omega
    have hs : ("+" : String).toList = ['+'] := rfl
    rw [String.toList_append, hs, List.singleton_append, List.cons_append, year_plus, allDigits_padded hw _ hr,
      Option.map_some, hy]

theorem looseDate_text (d : Date) (rest : List Char) : looseDate (d.text.toList ++ rest) = some (d, rest) := by
  obtain ⟨y, m, day, hc, hm, hd, hof⟩ := d.exists_civil
  have ht : d.text.toList ++ rest = (Date.yearText y).toList ++
      '-' :: ((padded 2 (toString m)).toList ++ '-' :: ((padded 2 (toString day)).toList ++ rest)) := by
    simp [Date.text, hc]
  have hy : EndsDigits ('-' :: ((padded 2 (toString m)).toList ++ '-' :: ((padded 2 (toString day)).toList ++ rest))) := by
    simp [EndsDigits]
    decide
  have hmark : ∀ cs, mark '-' ('-' :: cs) = some ((), cs) := fun cs ↦ mark_cons (by decide)
  rw [ht, looseDate, year_yearText y hy]
  simp only [Option.bind_eq_bind, Option.bind_some, hmark, number_padded hm, number_padded hd, hof]
  rfl

theorem fraction_padded {width n nanos : Nat} (hw : 0 < width) (hw9 : width ≤ 9) (hn : n < 10 ^ width)
    (hv : n * 10 ^ (9 - width) = nanos) (hr : EndsDigits rest) :
    fraction ('.' :: ((padded width (toString n)).toList ++ rest)) = some (nanos, rest) := by
  have hl := length_padded hw hn
  rw [fraction, allDigits_padded hw n hr]
  simp only [Option.bind_eq_bind, Option.bind_some, takeWhile_isDigit (isDigit_padded width n) hr]
  rw [List.take_of_length_le (by omega), ofDigits_padded, hl, ← hv]
  rfl

theorem fraction_none (h : ∀ c ∈ rest.head?, c ≠ '.') : fraction rest = some (0, rest) := by
  cases rest with
  | nil => rfl
  | cons c rest =>
    rw [fraction]
    intro cs he
    cases he
    exact h _ rfl rfl

theorem fraction_fractionText {nanos : Nat} (hn : nanos < 1000000000) (hr : EndsDigits rest)
    (hp : ∀ c ∈ rest.head?, c ≠ '.') :
    fraction ((Moment.fractionText nanos).toList ++ rest) = some (nanos, rest) := by
  have hs : ∀ s : String, ("." ++ s).toList ++ rest = '.' :: (s.toList ++ rest) := by simp
  rw [Moment.fractionText]
  split_ifs with h₀ h₃ h₆
  · rw [h₀]
    exact fraction_none hp
  · rw [hs]
    exact fraction_padded (by decide) (by decide) (by omega) (by omega) hr
  · rw [hs]
    exact fraction_padded (by decide) (by decide) (by omega) (by omega) hr
  · rw [hs]
    exact fraction_padded (by decide) (by decide) (by omega) (by omega) hr

theorem looseTime_timeText {t : Moment} (hn : t.nanos < 1000000000) (hr : EndsDigits rest)
    (hp : ∀ c ∈ rest.head?, c ≠ '.') :
    looseTime (t.timeText.toList ++ rest) = some ((t.secondOfDay, t.nanos), dropBlanks rest) := by
  have hs : t.secondOfDay < 86400 := by
    rw [Moment.secondOfDay]
    omega
  have ht : t.timeText.toList ++ rest = (padded 2 (toString (t.secondOfDay / 3600))).toList ++
      ':' :: ((padded 2 (toString (t.secondOfDay / 60 % 60))).toList ++
        ':' :: ((padded 2 (toString (t.secondOfDay % 60))).toList ++
          ((Moment.fractionText t.nanos).toList ++ rest))) := by
    simp [Moment.timeText, Nat.div_eq_of_lt hn, Nat.mod_eq_of_lt hn]
  have hmark : ∀ cs, mark ':' (':' :: cs) = some ((), cs) := fun cs ↦ mark_cons (by decide)
  have htime : timeOfDay? (t.secondOfDay / 3600) (t.secondOfDay / 60 % 60) (t.secondOfDay % 60) t.nanos =
      some (t.secondOfDay, t.nanos) := by
    have hg : t.secondOfDay / 3600 < 24 ∧ t.secondOfDay / 60 % 60 < 60 ∧ t.secondOfDay % 60 ≤ 60 := by omega
    rw [timeOfDay?, (Option.guard_eq_some' ()).2 hg, Option.bind_eq_bind, Option.bind_some, if_neg (by omega),
      show t.secondOfDay / 3600 * 3600 + t.secondOfDay / 60 % 60 * 60 + t.secondOfDay % 60 = t.secondOfDay by omega]
    rfl
  rw [ht, looseTime, number_padded (by omega)]
  simp only [Option.bind_eq_bind, Option.bind_some, hmark, number_padded (show t.secondOfDay / 60 % 60 < 100 by omega),
    number_padded (show t.secondOfDay % 60 < 100 by omega), fraction_fractionText hn hr hp, htime]
  rfl

theorem momentOf?_date (t : Moment) : momentOf? t.date (t.secondOfDay, t.nanos) 0 = some t := by
  have hs : t.date.days * 86400 + t.secondOfDay - 0 = t.seconds := by
    simp only [Moment.date, Moment.days, Moment.secondOfDay]
    omega
  rw [momentOf?, hs]
  exact dif_pos ⟨t.min_le, t.lt_max, t.nanos_lt⟩

end Calendar

open Calendar Text

theorem Date.read?_text (d : Date) : read? d.text = some d := by
  have h := looseDate_text d []
  rw [List.append_nil] at h
  rw [read?, h]
  rfl

namespace Moment

variable {t : Moment}

theorem readLocal?_text (hn : t.nanos < 1000000000) : readLocal? (t.text "T") = some t := by
  have ht : (t.text "T").toList = t.date.text.toList ++ 'T' :: (t.timeText.toList ++ []) := by
    simp [text]
  have hmark : ∀ cs, mark 'T' ('T' :: cs) = some ((), cs) := fun cs ↦ mark_cons (by decide)
  have he : EndsDigits [] := by simp [EndsDigits]
  have htime := looseTime_timeText hn he (by simp)
  rw [readLocal?, ht, looseDate_text]
  simp only [Option.bind_eq_bind, Option.bind_some, hmark, htime, momentOf?_date]
  rfl

theorem readLenient?_text (hn : t.nanos < 1000000000) : readLenient? (t.text "T" ++ "Z") = some t := by
  have ht : (t.text "T" ++ "Z").toList = t.date.text.toList ++ 'T' :: (t.timeText.toList ++ ['Z']) := by
    simp [text]
  have he : EndsDigits ['Z'] := by
    rintro c hc
    cases hc
    decide
  have htime := looseTime_timeText hn he (by simp)
  have hoff : lenientOffset (dropBlanks ['Z']) = some (0, []) := by
    rw [dropBlanks_cons (by decide)]
    decide
  rw [readLenient?, ht, looseDate_text]
  simp only [Option.bind_eq_bind, Option.bind_some, dateTimeMark, htime, hoff, momentOf?_date]
  rfl

end Moment

end Upsert
