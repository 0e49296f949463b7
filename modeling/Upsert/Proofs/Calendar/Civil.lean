import Mathlib.Data.Option.Basic
import Mathlib.Tactic.SplitIfs
import Upsert.Calendar.Date

namespace Upsert.Date

/-- The day of an era by centuries, spans of four years, years and days. -/
structure Parts (day century span year rest : Nat) : Prop where
  day_eq : day = century * 36524 + span * 1461 + year * 365 + rest
  century_le : century ≤ 3
  span_le : span ≤ 24
  year_le : year ≤ 3
  rest_le : rest ≤ 365
  leap : rest = 365 → year = 3 ∧ (span = 24 → century = 3)

theorem exists_parts_of_day {day : Nat} (h : day < 146097) : ∃ century span year rest, Parts day century span year rest := by
  obtain ⟨c, hc⟩ : ∃ c, c = min (day / 36524) 3 := ⟨_, rfl⟩
  obtain ⟨s, hs⟩ : ∃ s, s = (day - c * 36524) / 1461 := ⟨_, rfl⟩
  obtain ⟨y, hy⟩ : ∃ y, y = min ((day - c * 36524 - s * 1461) / 365) 3 := ⟨_, rfl⟩
  refine ⟨c, s, y, day - c * 36524 - s * 1461 - y * 365, ?_, ?_, ?_, ?_, ?_, ?_⟩ <;> omega

namespace Parts

variable {day century span year rest : Nat}

theorem firstDay_eq (h : Parts day century span year rest) :
    365 * (100 * century + 4 * span + year) + (100 * century + 4 * span + year) / 4 -
      (100 * century + 4 * span + year) / 100 = day - rest := by
  obtain ⟨rfl, hc, hs, hy, -, -⟩ := h
  omega

theorem centuries_eq (h : Parts day century span year rest) : day / 36524 - day / 146096 = century := by
  obtain ⟨rfl, hc, hs, hy, hr, hl⟩ := h
  omega

theorem spans_eq (h : Parts day century span year rest) :
    day / 1460 = 25 * century + span + (24 * century + span + 365 * year + rest) / 1460 := by
  obtain ⟨rfl, hc, hs, hy, hr, hl⟩ := h
  omega

theorem yearOfEra_eq (h : Parts day century span year rest) :
    (day - day / 1460 + day / 36524 - day / 146096) / 365 = 100 * century + 4 * span + year := by
  have hc := h.centuries_eq
  have hs := h.spans_eq
  have hle : day / 146096 ≤ day / 36524 := by omega
  obtain ⟨hd, hc3, hs24, hy, hr, hl⟩ := h
  obtain ⟨e, he⟩ : ∃ e, e = (24 * century + span + 365 * year + rest) / 1460 := ⟨_, rfl⟩
  rw [← he] at hs
  rw [Nat.add_sub_assoc hle, hc, hs, hd]
  have hrest : e ≤ rest ∧ rest < 365 + e := by omega
  omega

end Parts

theorem month_spec {day month : Nat} (h : day ≤ 365) (hm : month = (5 * day + 2) / 153) :
    month ≤ 11 ∧ (153 * month + 2) / 5 ≤ day ∧ day < (153 * (month + 1) + 2) / 5 := by
  omega

/-- The month of the calendar that is so many months behind a March. -/
def monthOf (month : Nat) : Nat := if month < 10 then month + 3 else month - 9

theorem monthOf_eq {month : Nat} (h : month ≤ 11) :
    month < 10 ∧ monthOf month = month + 3 ∨ 10 ≤ month ∧ monthOf month = month - 9 := by
  rw [monthOf]
  split <;> omega

theorem month_length {month d : Nat} {y : Int} (hm : month ≤ 11)
    (hd : (153 * month + 2) / 5 + d < (153 * (month + 1) + 2) / 5) (hl : (153 * month + 2) / 5 + d ≤ 365)
    (hleap : (153 * month + 2) / 5 + d = 365 → isLeapYear y) : d + 1 ≤ monthLength y (monthOf month) := by
  have hmo := monthOf_eq hm
  rw [monthLength]
  split_ifs with h₁ h₂ h₃
  · omega
  · have hne : (153 * month + 2) / 5 + d ≠ 365 := fun h ↦ h₂ (hleap h)
    omega
  · omega
  · omega

theorem isLeapYear_iff {y : Int} : isLeapYear y ↔ y % 4 = 0 ∧ (y % 100 ≠ 0 ∨ y % 400 = 0) := by
  simp [isLeapYear]

def yearOf (era : Int) (yearOfEra month : Nat) : Int :=
  if monthOf month ≤ 2 then yearOfEra + era * 400 + 1 else yearOfEra + era * 400

theorem daysOfCivil_eq (era : Int) {yearOfEra month : Nat} (d : Nat) (hy : yearOfEra < 400) (hm : month ≤ 11) :
    daysOfCivil (yearOf era yearOfEra month) (monthOf month) (d + 1) =
      era * 146097 + (365 * yearOfEra + yearOfEra / 4 - yearOfEra / 100 + ((153 * month + 2) / 5 + d)) - 719468 := by
  have hmo := monthOf_eq hm
  have hmod : ((monthOf month : Int) + 9) % 12 = month := by omega
  have hdiv : ((yearOfEra : Int) + era * 400) / 400 = era := by omega
  have hrem : ((yearOfEra : Int) + era * 400) % 400 = yearOfEra := by omega
  have hyear : (if monthOf month ≤ 2 then yearOf era yearOfEra month - 1 else yearOf era yearOfEra month) =
      yearOfEra + era * 400 := by
    rw [yearOf]
    split_ifs <;> omega
  rw [daysOfCivil]
  simp only [hmod, hyear, hdiv, hrem]
  omega

theorem civilOfDays_spec (days : Int) : ∃ y m d, civilOfDays days = (y, m, d) ∧ 1 ≤ m ∧ m ≤ 12 ∧ 1 ≤ d ∧
    d ≤ monthLength y m ∧ daysOfCivil y m d = days := by
  obtain ⟨day, hday⟩ : ∃ day, day = ((days + 719468) % 146097).toNat := ⟨_, rfl⟩
  obtain ⟨century, span, year, rest, hp⟩ := exists_parts_of_day (show day < 146097 by omega)
  obtain ⟨yoe, hyoe⟩ : ∃ yoe, yoe = 100 * century + 4 * span + year := ⟨_, rfl⟩
  have hfirst := hp.firstDay_eq
  rw [← hyoe] at hfirst
  have hrest : day - (365 * yoe + yoe / 4 - yoe / 100) = rest := by
    have := hp.day_eq
    omega
  obtain ⟨month, hmonth⟩ : ∃ month, month = (5 * rest + 2) / 153 := ⟨_, rfl⟩
  obtain ⟨hm, hl, hh⟩ := month_spec hp.rest_le hmonth
  obtain ⟨d, hd⟩ := Nat.exists_eq_add_of_le hl
  have hc : civilOfDays days =
      (yearOf ((days + 719468) / 146097) yoe month, monthOf month, rest - (153 * month + 2) / 5 + 1) := by
    rw [civilOfDays]
    simp only [← hday, hp.yearOfEra_eq, ← hyoe, hrest, ← hmonth]
    rfl
  rw [hd, Nat.add_sub_cancel_left] at hc
  have hmo := monthOf_eq hm
  obtain ⟨hday_eq, hcl, hsl, hyl, hrl, hleap⟩ := hp
  refine ⟨_, _, _, hc, by omega, by omega, by omega, ?_, ?_⟩
  · apply month_length hm (by omega) (by omega)
    intro h365
    obtain ⟨hy, hs⟩ := hleap (by omega)
    rw [yearOf, if_pos (by omega), isLeapYear_iff]
    omega
  · rw [daysOfCivil_eq _ _ (by omega) hm]
    omega

theorem exists_civil (d : Date) : ∃ y m day, d.civil = (y, m, day) ∧ m < 100 ∧ day < 100 ∧ ofCivil? y m day = some d := by
  obtain ⟨y, m, day, hc, hm, hm', hd, hd', hdays⟩ := civilOfDays_spec d.days
  have hl : monthLength y m ≤ 31 := by
    rw [monthLength]
    split_ifs <;> omega
  refine ⟨y, m, day, hc, by omega, by omega, ?_⟩
  rw [ofCivil?, hdays, (Option.guard_eq_some' ()).2 ⟨hm, hm', hd, hd'⟩]
  exact dif_pos ⟨d.min_le, d.le_max⟩

end Upsert.Date
