import Upsert.Proofs.Except
import Upsert.Proofs.Value.Canonical
import Upsert.Proofs.Wire.Encode
import Upsert.Proofs.Wire.Octets

namespace Upsert

namespace Moment

/-- Sent and compared as one and the same microsecond. -/
def KeptAlike (m : Moment) : Prop :=
  m.nanos < 1000000000 ∧ (Value.epochSeconds ≤ m.seconds ∨ m.nanos % 1000 = 0)

instance (m : Moment) : Decidable m.KeptAlike := inferInstanceAs (Decidable (_ ∧ _))

def ofMicroseconds? (micros : Int) : Option Moment :=
  of? (Value.epochSeconds + micros / 1000000) ((micros % 1000000).toNat * 1000)

variable {m m' : Moment}

theorem of?_eq_some_iff {seconds : Int} {nanos : Nat} :
    of? seconds nanos = some m ↔ m.seconds = seconds ∧ m.nanos = nanos := by
  rw [of?]
  split
  · cases m
    simp [eq_comm]
  · rename_i hn
    refine ⟨fun h ↦ (by cases h), ?_⟩
    rintro ⟨rfl, rfl⟩
    exact absurd ⟨m.min_le, m.lt_max, m.nanos_lt⟩ hn

theorem microseconds_spec (m : Moment) :
    let nanos := (m.seconds - Value.epochSeconds) * 1000000000 + m.nanos
    let micros := Value.microseconds m
    (0 ≤ nanos → micros * 1000 ≤ nanos ∧ nanos < micros * 1000 + 1000) ∧
      (nanos < 0 → nanos ≤ micros * 1000 ∧ micros * 1000 < nanos + 1000) := by
  intro nanos micros
  refine ⟨fun hn ↦ ?_, fun hn ↦ ?_⟩
  · have hm : micros = nanos / 1000 := Int.tdiv_eq_ediv_of_nonneg hn
    omega
  · have hm : micros = -(-nanos / 1000) := by
      rw [← Int.tdiv_eq_ediv_of_nonneg (by omega), Int.neg_tdiv, Int.neg_neg]
      rfl
    omega

theorem microseconds_bounds (m : Moment) :
    -9223372036854775808 ≤ Value.microseconds m ∧ Value.microseconds m < 9223372036854775808 := by
  have hn := m.nanos_lt
  have hl := m.min_le
  have hh := m.lt_max
  obtain ⟨hp, hq⟩ := microseconds_spec m
  simp only [Date.minDays, Date.maxDays, Value.epochSeconds] at hl hh hp hq
  omega

theorem toMicroseconds_stored_iff (h : ofMicroseconds? (Value.microseconds m) = some m') :
    m.toMicroseconds = m'.toMicroseconds ↔ m.KeptAlike := by
  obtain ⟨hs, hn⟩ := of?_eq_some_iff.1 h
  obtain ⟨hp, hq⟩ := microseconds_spec m
  have hl := m.nanos_lt
  rw [toMicroseconds_eq_iff, KeptAlike]
  generalize Value.epochSeconds = e at *
  generalize Value.microseconds m = micros at *
  constructor
  · rintro ⟨hs', hn'⟩
    omega
  · rintro ⟨hlt, hk⟩
    omega

theorem exists_stored (h : m.KeptAlike) : ∃ m', ofMicroseconds? (Value.microseconds m) = some m' := by
  refine ⟨m.toMicroseconds, of?_eq_some_iff.2 ?_⟩
  obtain ⟨hp, hq⟩ := microseconds_spec m
  obtain ⟨hlt, hk⟩ := h
  simp only [toMicroseconds]
  generalize Value.epochSeconds = e at *
  generalize Value.microseconds m = micros at *
  omega

end Moment

namespace Value

def moment? (t : ColumnType) : Value → Option Moment
  | .timestamp m | .localTimestamp m => some m
  | .string s =>
    if t = .base .timestamp then Moment.readLocal? (Text.trim s) else Moment.readStrict? (Text.trim s)
  | _ => none

def stamped (t : ColumnType) (m : Moment) : Value :=
  if t = .base .timestamp then .localTimestamp m else .timestamp m

variable {t : ColumnType} {v r : Value} {os : Octets} {m m' : Moment}

theorem moment?_of_encode (ht : t = .base .timestamp ∨ t = .base .timestamptz)
    (h : encode t v = .ok (some os)) : ∃ m, v.moment? t = some m ∧ encodeMoment m = os := by
  cases v with
  | timestamp m => obtain rfl | rfl := ht <;> cases h <;> exact ⟨m, rfl, rfl⟩
  | localTimestamp m => obtain rfl | rfl := ht <;> cases h <;> exact ⟨m, rfl, rfl⟩
  | string s =>
    replace h := Except.map_some_eq_ok_iff.1 h
    rw [moment?]
    obtain rfl | rfl := ht <;>
    · simp only [encodeString] at h
      obtain ⟨m, hm, ho⟩ := Except.elim_eq_ok_iff.1 h
      cases ho
      exact ⟨m, hm, rfl⟩
  | decimal d => exact absurd h (encode_decimal_ne_ok (.inr (.inr (.inr ht))))
  | _ => obtain rfl | rfl := ht <;> cases h

theorem decodeMoment_encodeMoment (m : Moment) : decodeMoment (encodeMoment m) =
    (Moment.ofMicroseconds? (microseconds m)).elim (.error .calendarRange) .ok := by
  have hb := m.microseconds_bounds
  have hp : (pow2 (8 * 8) : Int) = 18446744073709551616 := by decide
  have ht := takeInt_ofInt_nil 8 (microseconds m) (by omega) (by omega)
  rw [decodeMoment, encodeMoment, ht]
  rfl

theorem decode_encodeMoment_eq_ok_iff (ht : t = .base .timestamp ∨ t = .base .timestamptz) :
    decode t (some (encodeMoment m)) = .ok r ↔
      ∃ m', Moment.ofMicroseconds? (microseconds m) = some m' ∧ stamped t m' = r := by
  have hd : decode t (some (encodeMoment m)) = stamped t <$> decodeMoment (encodeMoment m) := by
    obtain rfl | rfl := ht <;> rfl
  rw [hd, Except.map_eq_ok_iff, decodeMoment_encodeMoment]
  cases Moment.ofMicroseconds? (microseconds m) <;> simp

theorem coerceLike_stamped (ht : t = .base .timestamp ∨ t = .base .timestamptz) (h : v.moment? t = some m) :
    v.coerceLike (stamped t m') = stamped t m := by
  cases v with
  | timestamp m => obtain rfl | rfl := ht <;> cases h <;> rfl
  | localTimestamp m => obtain rfl | rfl := ht <;> cases h <;> rfl
  | string s =>
    rw [moment?] at h
    obtain rfl | rfl := ht
    · rw [if_pos rfl] at h
      simp [coerceLike, coerced?, stamped, h]
    · rw [if_neg (by decide)] at h
      simp [coerceLike, coerced?, stamped, h]
  | _ => cases h

theorem canonical_stamped_beq_iff :
    (stamped t m).canonical == (stamped t m').canonical ↔ m.toMicroseconds = m'.toMicroseconds := by
  rw [stamped, stamped, beq_iff]
  split <;> simp [canonical, plain]

end Value

open Value

/-- A moment that a column of timestamps returns is found again if it was sent and is compared as one and the same
microsecond, and only then. -/
theorem timestamp_found_iff {t : ColumnType} {v : Value} {os : Octets}
    (ht : t = .base .timestamp ∨ t = .base .timestamptz) (h : encode t v = .ok (some os)) :
    ∃ m, v.moment? t = some m ∧ (m.KeptAlike → ∃ r, decode t (some os) = .ok r) ∧
      ∀ r, decode t (some os) = .ok r →
        ((v.coerceLike r).canonical == r.canonical ↔ m.KeptAlike) := by
  obtain ⟨m, hm, rfl⟩ := moment?_of_encode ht h
  refine ⟨m, hm, fun hk ↦ ?_, fun r hr ↦ ?_⟩
  · obtain ⟨m', hs⟩ := m.exists_stored hk
    exact ⟨_, (decode_encodeMoment_eq_ok_iff ht).2 ⟨m', hs, rfl⟩⟩
  · obtain ⟨m', hs, rfl⟩ := (decode_encodeMoment_eq_ok_iff ht).1 hr
    rw [coerceLike_stamped ht hm, canonical_stamped_beq_iff]
    exact m.toMicroseconds_stored_iff hs

theorem not_timestamp_found_before_2000 :
    ∃ m stored : Moment, m.seconds = 946684799 ∧ m.nanos = 999999500 ∧
      stored.seconds = 946684800 ∧ stored.nanos = 0 ∧
      encode (.base .timestamptz) (.timestamp m) = .ok (some (List.replicate 8 0)) ∧
      decode (.base .timestamptz) (some (List.replicate 8 0)) = .ok (.timestamp stored) ∧
      ¬((Value.timestamp m).coerceLike (.timestamp stored)).canonical ==
        (Value.timestamp stored).canonical := by
  obtain ⟨m, hs, hn⟩ : ∃ m : Moment, m.seconds = 946684799 ∧ m.nanos = 999999500 :=
    ⟨⟨946684799, 999999500, by decide, by decide, by decide⟩, rfl, rfl⟩
  obtain ⟨stored, hs', hn'⟩ : ∃ m : Moment, m.seconds = 946684800 ∧ m.nanos = 0 :=
    ⟨⟨946684800, 0, by decide, by decide, by decide⟩, rfl, rfl⟩
  have hm : microseconds m = 0 := by
    rw [microseconds, hs, hn, epochSeconds]
    decide
  have hz : encodeMoment m = List.replicate 8 0 := by
    rw [encodeMoment, hm]
    decide
  have he : encode (.base .timestamptz) (.timestamp m) = .ok (some (List.replicate 8 0)) := by
    rw [← hz]
    rfl
  have hd : decode (.base .timestamptz) (some (List.replicate 8 0)) = .ok (.timestamp stored) := by
    rw [← hz, decode_encodeMoment_eq_ok_iff (.inr rfl)]
    refine ⟨stored, ?_, rfl⟩
    rw [hm, Moment.ofMicroseconds?, Moment.of?_eq_some_iff, hs', hn']
    decide
  have hk : ¬m.KeptAlike := by
    rw [Moment.KeptAlike, hs, hn, epochSeconds]
    decide
  obtain ⟨m', hm', -, hf⟩ := timestamp_found_iff (.inr rfl) he
  cases hm'
  exact ⟨m, stored, hs, hn, hs', hn', he, hd, fun hb ↦ hk ((hf _ hd).1 hb)⟩

end Upsert
