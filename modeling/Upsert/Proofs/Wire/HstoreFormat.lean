import Mathlib.Data.List.Forall2
import Upsert.Proofs.Wire.Hstore

namespace Upsert.Hstore

/-- What stands after a key: a text behind its length, or the negative length of none. -/
inductive Written
  | text (s : String)
  | absent (length : Int)

namespace Written

def octets : Written → Octets
  | .text s => Octets.ofInt 4 (Text.utf8 s).length ++ Text.utf8 s
  | .absent length => Octets.ofInt 4 length

def value : Written → Option String
  | .text s => some s
  | .absent _ => none

def Fits : Written → Prop
  | .text s => (Text.utf8 s).length < 2 ^ 31
  | .absent length => -2 ^ 31 ≤ length ∧ length < 0

def ofValue : Option String → Written
  | some s => .text s
  | none => .absent (-1)

end Written

abbrev Entry := String × Written

namespace Entry

def octets (e : Entry) : Octets := (Written.text e.1).octets ++ e.2.octets

def Fits (e : Entry) : Prop := (Written.text e.1).Fits ∧ e.2.Fits

def value (e : Entry) : String × Option String := (e.1, e.2.value)

def ofValue (e : String × Option String) : Entry := (e.1, .ofValue e.2)

end Entry

def wire (es : List Entry) : Octets := Octets.ofInt 4 es.length ++ es.flatMap Entry.octets

def Writable (es : List Entry) : Prop := es.length < 2 ^ 31 ∧ ∀ e ∈ es, e.Fits

def written (m : Hstore) : List Entry := m.entries.map Entry.ofValue

section

variable {os rest : Octets}

theorem takeLength_eq_ok_iff {n : Int} :
    takeLength os = .ok (n, rest) ↔ os = Octets.ofInt 4 n ++ rest ∧ -2 ^ 31 ≤ n ∧ n < 2 ^ 31 := by
  have hp : (pow2 (8 * 4) : Int) = 2 ^ 32 := by decide
  rw [takeLength, Except.elim_eq_ok_iff]
  constructor
  · rintro ⟨p, ht, h⟩
    cases h
    obtain ⟨ho, hl, hh⟩ := Octets.takeInt?_eq_some_iff.1 ht
    refine ⟨ho, ?_, ?_⟩ <;> omega
  · rintro ⟨ho, hl, hh⟩
    refine ⟨_, Octets.takeInt?_eq_some_iff.2 ⟨ho, ?_, ?_⟩, rfl⟩ <;> omega

theorem takeText_eq_ok_iff {value : Option String} :
    takeText os = .ok (value, rest) ↔ ∃ w : Written, w.Fits ∧ w.value = value ∧ os = w.octets ++ rest := by
  rw [takeText, Except.bind_eq_ok_iff]
  constructor
  · rintro ⟨⟨n, os'⟩, hn, h⟩
    obtain ⟨rfl, hl, hh⟩ := takeLength_eq_ok_iff.1 hn
    dsimp only at h
    split at h
    · next hneg =>
      cases h
      exact ⟨.absent n, ⟨hl, hneg⟩, rfl, rfl⟩
    · split at h
      · cases h
      · next front rest' hs =>
        obtain ⟨rfl, hf⟩ := Octets.split?_eq_some_iff.1 hs
        split at h
        · next s hu =>
          cases h
          obtain rfl := Text.ofUtf8_eq_ok_iff.1 hu
          have hn : n = (Text.utf8 s).length := by omega
          subst hn
          exact ⟨.text s, by simp only [Written.Fits]; omega, rfl, (List.append_assoc ..).symm⟩
        · cases h
  · rintro ⟨w, hw, rfl, rfl⟩
    cases w with
    | absent n =>
      have hn : n < 0 := hw.2
      refine ⟨(n, rest), takeLength_eq_ok_iff.2 ⟨rfl, hw.1, by omega⟩, ?_⟩
      dsimp only
      rw [if_pos hn]
      rfl
    | text s =>
      have hs : (Text.utf8 s).length < 2 ^ 31 := hw
      refine ⟨_, takeLength_eq_ok_iff.2 ⟨List.append_assoc .., by omega, by omega⟩, ?_⟩
      dsimp only
      rw [if_neg (by omega), Int.toNat_natCast, Octets.split?_append]
      simp only [Text.ofUtf8_utf8]
      rfl

theorem takeEntries_eq_ok_iff {m m' : Hstore} {count : Nat} :
    takeEntries m count os = .ok (m', rest) ↔ ∃ es : List Entry, es.length = count ∧ (∀ e ∈ es, e.Fits) ∧
      os = es.flatMap Entry.octets ++ rest ∧
      m' = (es.map Entry.value).foldl (fun m e ↦ m.insert e.1 e.2) m := by
  induction count generalizing os m with
  | zero =>
    rw [takeEntries]
    constructor
    · intro h
      cases h
      exact ⟨[], rfl, fun e he ↦ absurd he List.not_mem_nil, rfl, rfl⟩
    · rintro ⟨es, he, -, rfl, rfl⟩
      obtain rfl := List.length_eq_zero_iff.1 he
      rfl
  | succ count ih =>
    rw [takeEntries, Except.bind_eq_ok_iff]
    constructor
    · rintro ⟨⟨key, os'⟩, hk, h⟩
      obtain ⟨w, hw, rfl, rfl⟩ := takeText_eq_ok_iff.1 hk
      cases w with
      | absent n => cases h
      | text key =>
        dsimp only [Written.value] at h
        obtain ⟨⟨value, os''⟩, hv, ht⟩ := Except.bind_eq_ok_iff.1 h
        obtain ⟨w', hw', rfl, rfl⟩ := takeText_eq_ok_iff.1 hv
        obtain ⟨es, rfl, hf, rfl, rfl⟩ := ih.1 ht
        refine ⟨(key, w') :: es, rfl, List.forall_mem_cons.2 ⟨⟨hw, hw'⟩, hf⟩, ?_, rfl⟩
        simp [Entry.octets]
    · rintro ⟨es, he, hf, rfl, rfl⟩
      obtain ⟨⟨key, w⟩, es, rfl⟩ := List.exists_cons_of_length_eq_add_one he
      obtain ⟨⟨hk, hw⟩, hf⟩ := List.forall_mem_cons.1 hf
      refine ⟨(some key, w.octets ++ (es.flatMap Entry.octets ++ rest)),
        takeText_eq_ok_iff.2 ⟨.text key, hk, rfl, by simp [Entry.octets]⟩, ?_⟩
      dsimp only
      refine Except.bind_eq_ok_iff.2 ⟨_, takeText_eq_ok_iff.2 ⟨w, hw, rfl, rfl⟩, ?_⟩
      exact ih.2 ⟨es, Nat.succ.inj he, hf, rfl, rfl⟩

theorem decode_eq_ok_iff {m : Hstore} :
    decode os = .ok m ↔ ∃ es, Writable es ∧ os = wire es ∧ m = .ofList (es.map Entry.value) := by
  rw [decode, Except.bind_eq_ok_iff]
  constructor
  · rintro ⟨⟨count, os'⟩, hc, h⟩
    obtain ⟨rfl, hl, hh⟩ := takeLength_eq_ok_iff.1 hc
    dsimp only at h
    split at h
    · cases h
    · obtain ⟨⟨m', rest⟩, ht, h⟩ := Except.bind_eq_ok_iff.1 h
      obtain ⟨es, he, hf, rfl, rfl⟩ := takeEntries_eq_ok_iff.1 ht
      dsimp only at h
      split at h
      · next hr =>
        cases h
        obtain rfl := List.isEmpty_iff.1 hr
        have hc : count = es.length := by omega
        subst hc
        exact ⟨es, ⟨by omega, hf⟩, by rw [wire, List.append_nil], rfl⟩
      · cases h
  · rintro ⟨es, ⟨hl, hf⟩, rfl, rfl⟩
    refine ⟨(es.length, es.flatMap Entry.octets), takeLength_eq_ok_iff.2 ⟨rfl, by omega, by omega⟩, ?_⟩
    dsimp only
    rw [if_neg (by omega), Int.toNat_natCast]
    refine Except.bind_eq_ok_iff.2 ⟨_, takeEntries_eq_ok_iff.2 ⟨es, rfl, hf, (List.append_nil _).symm, rfl⟩, ?_⟩
    rfl

theorem eq_nil_of_wire_append {es es' : List Entry} (h : Writable es) (h' : Writable es')
    (ho : wire es ++ rest = wire es') : rest = [] := by
  have hl : takeLength (wire es ++ rest) = .ok ((es.length : Int), es.flatMap Entry.octets ++ rest) :=
    takeLength_eq_ok_iff.2 ⟨List.append_assoc .., by have := h.1; omega, by have := h.1; omega⟩
  have hl' : takeLength (wire es') = .ok ((es'.length : Int), es'.flatMap Entry.octets) :=
    takeLength_eq_ok_iff.2 ⟨rfl, by have := h'.1; omega, by have := h'.1; omega⟩
  rw [ho, hl', Except.ok.injEq, Prod.mk.injEq, Int.natCast_inj] at hl
  have he : takeEntries .empty es.length (es.flatMap Entry.octets ++ rest) = .ok (_, rest) :=
    takeEntries_eq_ok_iff.2 ⟨es, rfl, h.2, rfl, rfl⟩
  have he' : takeEntries .empty es'.length (es'.flatMap Entry.octets) = .ok (_, []) :=
    takeEntries_eq_ok_iff.2 ⟨es', rfl, h'.2, (List.append_nil _).symm, rfl⟩
  rw [← hl.1, ← hl.2, he', Except.ok.injEq, Prod.mk.injEq] at he
  exact he.2.symm

end

theorem encodeLength_of_lt {n : Nat} (h : n < 2 ^ 31) : encodeLength n = .ok (Octets.ofInt 4 n) := by
  have hm : Int32.maxValue.toInt = 2147483647 := by decide
  rw [encodeLength, if_pos (by omega)]

theorem encodeText_of_fits {s : String} (h : (Written.text s).Fits) :
    encodeText s = .ok (Written.text s).octets := by
  rw [encodeText, encodeLength_of_lt h]
  rfl

theorem encodeValue_of_fits {value : Option String} (h : (Written.ofValue value).Fits) :
    encodeValue value = .ok (Written.ofValue value).octets := by
  cases value with
  | none => rfl
  | some s => exact encodeText_of_fits h

theorem encodeEntries_of_fits {entries : List (String × Option String)}
    (h : ∀ e ∈ entries, (Entry.ofValue e).Fits) :
    encodeEntries entries = .ok ((entries.map Entry.ofValue).flatMap Entry.octets) := by
  induction entries with
  | nil => rfl
  | cons e entries ih =>
    obtain ⟨key, value⟩ := e
    obtain ⟨he, h⟩ := List.forall_mem_cons.1 h
    have hk : encodeText key = .ok (Written.text key).octets := encodeText_of_fits he.1
    have hv : encodeValue value = .ok (Written.ofValue value).octets := encodeValue_of_fits he.2
    rw [encodeEntries_cons, hk, hv, ih h]
    rfl

theorem Written.fits_ofValue {value : Option String}
    (h : ∀ s ∈ value, ((Text.utf8 s).length : Int) ≤ Int32.maxValue.toInt) : (Written.ofValue value).Fits := by
  cases value with
  | none => exact ⟨by decide, by decide⟩
  | some s =>
    have hs := h s rfl
    have hm : Int32.maxValue.toInt = 2147483647 := by decide
    show (Text.utf8 s).length < 2 ^ 31
    omega

variable {m : Hstore}

theorem Fits.writable (h : m.Fits) : Writable (written m) := by
  have hm : Int32.maxValue.toInt = 2147483647 := by decide
  refine ⟨?_, ?_⟩
  · have hl := h.1
    rw [written, List.length_map]
    omega
  · rw [written, List.forall_mem_map]
    intro e he
    obtain ⟨hk, hv⟩ := h.2 e he
    have hk : (Text.utf8 e.1).length < 2 ^ 31 := by omega
    exact ⟨hk, Written.fits_ofValue hv⟩

theorem encode_of_fits (h : m.Fits) : encode m = .ok (wire (written m)) := by
  have hw := h.writable
  have hl : m.entries.length < 2 ^ 31 := by simpa [written] using hw.1
  have he := encodeEntries_of_fits fun e he ↦ hw.2 _ (List.mem_map_of_mem he)
  rw [encode, encodeLength_of_lt hl, he, wire, written, List.length_map]
  rfl

theorem find?_ofList_value (es : List Entry) (key : String) :
    Dictionary.find? (.ofList (es.map Entry.value)) key = (es.reverse.lookup key).map Written.value := by
  rw [Dictionary.find?_ofList, ← List.map_reverse]
  induction es.reverse with
  | nil => rfl
  | cons e es ih =>
    rw [List.map_cons, lookup_cons_eq_ite, lookup_cons_eq_ite, ih, apply_ite (Option.map Written.value)]
    rfl

/-- The octets of a map are those of any entries of which the last of each key counts. They can be neither cut short
nor added to. A map that fits is written as its own entries, and read back from them. -/
theorem decode_iff_wire :
    (∀ os m, decode os = .ok m ↔ ∃ es, Writable es ∧ os = wire es ∧
      ∀ key, m.find? key = (es.reverse.lookup key).map Written.value) ∧
    (∀ os os' m m', decode os = .ok m → decode os' = .ok m' → os <+: os' → os = os') ∧
    ∀ m : Hstore, m.Fits → encode m = .ok (wire (written m)) ∧ decode (wire (written m)) = .ok m := by
  refine ⟨fun os m ↦ ?_, ?_, fun m h ↦ ⟨encode_of_fits h, decode_encode (encode_of_fits h)⟩⟩
  · rw [decode_eq_ok_iff]
    constructor
    · rintro ⟨es, he, ho, rfl⟩
      exact ⟨es, he, ho, find?_ofList_value es⟩
    · rintro ⟨es, he, ho, hm⟩
      refine ⟨es, he, ho, Dictionary.ext_find? fun key ↦ ?_⟩
      rw [hm, find?_ofList_value]
  · rintro os os' m m' h h' ⟨rest, rfl⟩
    obtain ⟨es, he, rfl, -⟩ := decode_eq_ok_iff.1 h
    obtain ⟨es', he', ho, -⟩ := decode_eq_ok_iff.1 h'
    rw [eq_nil_of_wire_append he he' ho, List.append_nil]

theorem decode_wire_repeated :
    let es : List Entry := [("a", .text "1"), ("a", .absent (-5))]
    Writable es ∧ decode (wire es) = .ok (.ofList [("a", none)]) := by
  intro es
  have hw : Writable es := by
    have ha : (Written.text "a").Fits := show (Text.utf8 "a").length < 2 ^ 31 by decide
    have ht : (Written.text "1").Fits := show (Text.utf8 "1").length < 2 ^ 31 by decide
    have hn : (Written.absent (-5)).Fits := ⟨by decide, by decide⟩
    refine ⟨by decide, ?_⟩
    simp only [es, List.forall_mem_cons]
    exact ⟨⟨ha, ht⟩, ⟨ha, hn⟩, by simp⟩
  have hl : ∀ key, (Dictionary.ofList [("a", none)] : Hstore).find? key = (es.reverse.lookup key).map Written.value := by
    intro key
    rw [← find?_ofList_value]
    rfl
  exact ⟨hw, (decode_iff_wire.1 _ _).2 ⟨es, hw, rfl, hl⟩⟩

end Upsert.Hstore
