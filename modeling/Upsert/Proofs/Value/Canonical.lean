import Upsert.Proofs.Calendar.Reading
import Upsert.Proofs.Number.Rereading
import Upsert.Proofs.Uuid
import Upsert.Proofs.Value.Fingerprint

namespace Upsert

namespace Moment

variable {m m' : Moment}

theorem toMicroseconds_eq_iff : m.toMicroseconds = m'.toMicroseconds ↔
    m.seconds = m'.seconds ∧ m.nanos / 1000 = m'.nanos / 1000 := by
  cases m
  cases m'
  simp only [toMicroseconds, mk.injEq]
  omega

theorem toMicroseconds_toMicroseconds (m : Moment) : m.toMicroseconds.toMicroseconds = m.toMicroseconds := by
  refine toMicroseconds_eq_iff.2 ⟨rfl, ?_⟩
  show (m.nanos - m.nanos % 1000) / 1000 = m.nanos / 1000
  omega

end Moment

theorem Binary64.plain_plain (x : Binary64) : x.plain.plain = x.plain := by
  by_cases h : x.isZero
  · rw [plain, plain, if_pos h]
    rfl
  · rw [plain, plain, if_neg h, if_neg h]

theorem Binary64.plain_eq_iff {x y : Binary64} :
    x.plain = y.plain ↔ x.bits = y.bits ∨ x.isZero ∧ y.isZero := by
  constructor
  · intro h
    by_cases hx : x.isZero
    · exact .inr ⟨hx, isZero_of_plain_eq h hx⟩
    · have hy : ¬y.isZero := fun hy ↦ hx (isZero_of_plain_eq h.symm hy)
      rw [plain, plain, if_neg hx, if_neg hy] at h
      exact .inl (congrArg bits h)
  · rintro (h | ⟨hx, hy⟩)
    · cases x
      cases y
      exact congrArg (fun b ↦ plain ⟨b⟩) h
    · rw [plain, plain, if_pos hx, if_pos hy]

theorem count_padded (width n : Nat) : (Text.padded width (toString n)).toList.count '-' = 0 :=
  List.count_eq_zero.2 fun h ↦ absurd (Text.isDigit_padded width n _ h) (by decide)

theorem Date.count_text_le (d : Date) : d.text.toList.count '-' ≤ 3 := by
  -- Besides the two marks only a year before 0 has one, as its sign.
  have hy (y : Int) : (yearText y).toList.count '-' ≤ 1 := by
    rw [yearText]
    split
    · rw [count_padded]
      exact Nat.zero_le 1
    · rw [String.toList_append, List.count_append, count_padded]
      split <;> decide
  rcases hd : d.civil with ⟨y, m, day⟩
  have hm : "-".toList.count '-' = 1 := by decide
  have hc := hy y
  simp only [text, hd, String.toList_append, List.count_append, count_padded, hm]
  omega

theorem Uuid.le_count_text (u : Uuid) : 4 ≤ u.text.toList.count '-' := by
  simp only [text, String.toList_append, List.count_append]
  have h : "-".toList.count '-' = 1 := by decide
  omega

theorem Uuid.text_ne_date (u : Uuid) (d : Date) : u.text ≠ d.text := by
  intro h
  have hu := u.le_count_text
  have hd := d.count_text_le
  rw [h] at hu
  omega

theorem Uuid.text_inj {u u' : Uuid} : u.text = u'.text ↔ u = u' := by
  refine ⟨fun h ↦ ?_, congrArg text⟩
  have hr := u.read?_text
  rw [h, read?_text] at hr
  exact (Option.some.inj hr).symm

theorem Date.text_inj {d d' : Date} : d.text = d'.text ↔ d = d' := by
  refine ⟨fun h ↦ ?_, congrArg text⟩
  have hr := d.read?_text
  rw [h, read?_text] at hr
  exact (Option.some.inj hr).symm

namespace Value

def quantity? : Value → Option ℚ
  | .int n => some n.toInt
  | .decimal d => some d.value
  | _ => none

def spelling? : Value → Option String
  | .string s => some s
  | .uuid u => some u.text
  | .date d => some d.text
  | _ => none

def isKept : Value → Bool
  | .null | .boolean _ | .json _ | .bytes _ | .strings _ | .hstore _ => true
  | _ => false

/-- Values that may be the same part of a key. -/
inductive Interchangeable : Value → Value → Prop
  | number {v w : Value} {q : ℚ} (left : v.quantity? = some q) (right : w.quantity? = some q) : Interchangeable v w
  | float {x y : Binary64} (h : x.bits = y.bits ∨ x.isZero ∧ y.isZero) : Interchangeable (.float x) (.float y)
  | timestamp {s t : Moment} (second : s.seconds = t.seconds) (microsecond : s.nanos / 1000 = t.nanos / 1000) :
    Interchangeable (.timestamp s) (.timestamp t)
  | localTimestamp {s t : Moment} (second : s.seconds = t.seconds) (microsecond : s.nanos / 1000 = t.nanos / 1000) :
    Interchangeable (.localTimestamp s) (.localTimestamp t)
  | text {v w : Value} {s : String} (left : v.spelling? = some s) (right : w.spelling? = some s) : Interchangeable v w
  | kept {v w : Value} (kept : v.isKept) (eq : v == w) : Interchangeable v w

variable {v w : Value}

theorem canonical_beq_decimal_iff {d : Decimal} : v.canonical == .decimal d ↔ v.quantity? = some d.value := by
  have hd (c : Decimal) : Value.decimal c == .decimal d ↔ c.value = d.value := Decimal.numEq_iff_value_eq
  cases v with
  | int n =>
    rw [canonical, hd, Decimal.ofInt, Decimal.value_whole, quantity?, Option.some_inj]
  | decimal c => rw [canonical, hd, Decimal.normalized_value, quantity?, Option.some_inj]
  | _ =>
    constructor
    · intro h
      cases h
    · intro h
      cases h

theorem canonical_beq_string_iff {s : String} : v.canonical == .string s ↔ v.spelling? = some s := by
  have hs (t : String) : Value.string t == .string s ↔ some t = some s := by
    rw [Option.some_inj]
    exact beq_iff_eq (α := String)
  cases v with
  | string t | uuid u | date d => exact hs _
  | _ =>
    constructor
    · intro h
      cases h
    · intro h
      cases h

theorem canonical_of_isKept (h : v.isKept) : v.canonical = v := by
  cases v with
  | int n | float x | decimal d | uuid u | date d | timestamp t | localTimestamp t => cases h
  | _ => rfl

theorem isKept_canonical (v : Value) : v.canonical.isKept = v.isKept := by
  cases v <;> rfl

theorem isKept_congr (h : v == w) : v.isKept = w.isKept := by
  rcases eq_cases h with rfl | ⟨c, d, rfl, rfl, -⟩ | ⟨i, j, rfl, rfl, -⟩ <;> rfl

theorem canonical_float_beq_iff {x y : Binary64} :
    (Value.float x).canonical == (Value.float y).canonical ↔ x.plain = y.plain := by
  rw [beq_iff]
  exact ⟨Value.float.inj, congrArg Value.float⟩

theorem interchangeable_of_canonical_beq (h : v.canonical == w.canonical) : v.Interchangeable w := by
  by_cases hv : v.isKept
  · rw [canonical_of_isKept hv] at h
    have hw : w.isKept := by rwa [← isKept_canonical, ← isKept_congr h]
    rw [canonical_of_isKept hw] at h
    exact .kept hv h
  · cases v with
    | int n => exact .number (canonical_beq_decimal_iff.1 BEq.rfl) (canonical_beq_decimal_iff.1 (BEq.symm h))
    | decimal d => exact .number (canonical_beq_decimal_iff.1 BEq.rfl) (canonical_beq_decimal_iff.1 (BEq.symm h))
    | string s | uuid u | date d =>
      exact .text (canonical_beq_string_iff.1 BEq.rfl) (canonical_beq_string_iff.1 (BEq.symm h))
    | float x =>
      cases w with
      | float y => exact .float (Binary64.plain_eq_iff.1 (canonical_float_beq_iff.1 h))
      | _ => cases h
    | timestamp s =>
      cases w with
      | timestamp t =>
        have ht := Moment.toMicroseconds_eq_iff.1 (beq_iff_eq.1 h)
        exact .timestamp ht.1 ht.2
      | _ => cases h
    | localTimestamp s =>
      cases w with
      | localTimestamp t =>
        have ht := Moment.toMicroseconds_eq_iff.1 (beq_iff_eq.1 h)
        exact .localTimestamp ht.1 ht.2
      | _ => cases h
    | _ => exact absurd rfl hv

theorem exists_decimal {q : ℚ} (h : v.quantity? = some q) : ∃ d : Decimal, d.value = q := by
  cases v with
  | int n => exact ⟨.ofInt n.toInt, (Decimal.value_whole _).trans (Option.some.inj h)⟩
  | decimal d => exact ⟨d, Option.some.inj h⟩
  | _ => cases h

theorem canonical_beq_of_interchangeable (h : v.Interchangeable w) : v.canonical == w.canonical := by
  cases h with
  | number hv hw =>
    obtain ⟨d, rfl⟩ := exists_decimal hv
    exact PartialEquivBEq.trans (canonical_beq_decimal_iff.2 hv) (BEq.symm (canonical_beq_decimal_iff.2 hw))
  | text hv hw => exact PartialEquivBEq.trans (canonical_beq_string_iff.2 hv) (BEq.symm (canonical_beq_string_iff.2 hw))
  | float h => exact canonical_float_beq_iff.2 (Binary64.plain_eq_iff.2 h)
  | timestamp second microsecond =>
    exact (beq_iff _ _).2 (congrArg timestamp (Moment.toMicroseconds_eq_iff.2 ⟨second, microsecond⟩))
  | localTimestamp second microsecond =>
    exact (beq_iff _ _).2 (congrArg localTimestamp (Moment.toMicroseconds_eq_iff.2 ⟨second, microsecond⟩))
  | kept hv h => rwa [canonical_of_isKept hv, canonical_of_isKept (isKept_congr h ▸ hv)]

theorem canonical_canonical (v : Value) : v.canonical.canonical == v.canonical := by
  cases v with
  | int n | decimal d => exact canonical_beq_decimal_iff.2 rfl
  | float x => exact (beq_iff _ _).2 (congrArg float x.plain_plain)
  | timestamp t => exact (beq_iff _ _).2 (congrArg timestamp t.toMicroseconds_toMicroseconds)
  | localTimestamp t => exact (beq_iff _ _).2 (congrArg localTimestamp t.toMicroseconds_toMicroseconds)
  | _ => exact BEq.rfl

/-- Two values have one form if and only if they are interchangeable, and a form is its own form. -/
theorem canonical_beq_iff_interchangeable (v w : Value) :
    (v.canonical == w.canonical ↔ v.Interchangeable w) ∧ v.canonical.canonical == v.canonical :=
  ⟨⟨interchangeable_of_canonical_beq, canonical_beq_of_interchangeable⟩, canonical_canonical v⟩

theorem canonical_beq_of_spelled :
    (∀ u u' : Uuid, (uuid u).canonical == (uuid u').canonical ↔ u = u') ∧
    (∀ d d' : Date, (date d).canonical == (date d').canonical ↔ d = d') ∧
    ∀ (u : Uuid) (d : Date), ¬(uuid u).canonical == (date d).canonical := by
  refine ⟨fun u u' ↦ ?_, fun d d' ↦ ?_, fun u d h ↦ ?_⟩
  · exact canonical_beq_string_iff.trans ((Option.some_inj).trans Uuid.text_inj)
  · exact canonical_beq_string_iff.trans ((Option.some_inj).trans Date.text_inj)
  · exact u.text_ne_date d (Option.some.inj (canonical_beq_string_iff.1 h))

end Value

end Upsert
