import Upsert.Proofs.Except
import Upsert.Proofs.Text.Dictionary
import Upsert.Proofs.Text.Utf8
import Upsert.Proofs.Wire.Octets
import Upsert.Wire.Hstore

namespace Upsert.Hstore

variable {os : Octets}

theorem takeLength_ofInt {n : Int} (hl : -pow2 32 ≤ 2 * n) (hh : 2 * n < pow2 32) (rest : Octets) :
    takeLength (Octets.ofInt 4 n ++ rest) = .ok (n, rest) := by
  rw [takeLength, Octets.takeInt?_ofInt rest hl hh]
  rfl

theorem encodeLength_eq_ok_iff {n : Nat} :
    encodeLength n = .ok os ↔ (n : Int) ≤ Int32.maxValue.toInt ∧ os = Octets.ofInt 4 n := by
  rw [encodeLength]
  split <;> simp_all [eq_comm]

theorem takeLength_encodeLength {n : Nat} (h : encodeLength n = .ok os) (rest : Octets) :
    takeLength (os ++ rest) = .ok ((n : Int), rest) := by
  obtain ⟨hn, rfl⟩ := encodeLength_eq_ok_iff.1 h
  have hm : Int32.maxValue.toInt = 2147483647 := by decide
  have hp : (pow2 32 : Int) = 4294967296 := by decide
  exact takeLength_ofInt (by omega) (by omega) rest

theorem takeText_encodeText {s : String} (h : encodeText s = .ok os) (rest : Octets) :
    takeText (os ++ rest) = .ok (some s, rest) := by
  obtain ⟨ls, hl, ho⟩ := Except.bind_eq_ok_iff.1 h
  cases ho
  simp only [takeText, List.append_assoc, takeLength_encodeLength hl, Except.ok_bind]
  rw [if_neg (by omega), Int.toNat_natCast, Octets.split?_append]
  simp only [Text.ofUtf8_utf8]
  rfl

theorem takeText_null (rest : Octets) : takeText (Octets.ofInt 4 (-1) ++ rest) = .ok (none, rest) := by
  rw [takeText, takeLength_ofInt (by decide) (by decide)]
  rfl

def encodeValue (value : Option String) : Except HstoreError Octets :=
  value.elim (.ok (Octets.ofInt 4 (-1))) encodeText

theorem encodeEntries_cons (key : String) (value : Option String) (entries : List (String × Option String)) :
    encodeEntries ((key, value) :: entries) = do
      let ks ← encodeText key
      let vs ← encodeValue value
      return ks ++ vs ++ (← encodeEntries entries) := by
  cases value <;> rfl

theorem encodeEntries_cons_eq_ok_iff {key : String} {value : Option String}
    {entries : List (String × Option String)} :
    encodeEntries ((key, value) :: entries) = .ok os ↔ ∃ ks, encodeText key = .ok ks ∧
      ∃ vs, encodeValue value = .ok vs ∧ ∃ es, encodeEntries entries = .ok es ∧ ks ++ vs ++ es = os := by
  rw [encodeEntries_cons]
  simp only [Except.bind_eq_ok_iff, pure, Except.pure, Except.ok.injEq]

theorem takeEntries_encodeEntries {entries : List (String × Option String)}
    (h : encodeEntries entries = .ok os) (m : Hstore) (rest : Octets) :
    takeEntries m entries.length (os ++ rest) =
      .ok (entries.foldl (fun m e ↦ m.insert e.1 e.2) m, rest) := by
  induction entries generalizing os m with
  | nil =>
    cases h
    rfl
  | cons e entries ih =>
    obtain ⟨key, value⟩ := e
    obtain ⟨ks, hk, vs, hv, es, he, rfl⟩ := encodeEntries_cons_eq_ok_iff.1 h
    have hv : takeText (vs ++ (es ++ rest)) = .ok (value, es ++ rest) := by
      cases value with
      | none =>
        cases hv
        exact takeText_null _
      | some s => exact takeText_encodeText hv _
    simp only [List.length_cons, takeEntries, List.append_assoc, takeText_encodeText hk, hv, Except.ok_bind]
    exact ih he (m.insert key value)

theorem decode_encode {m : Hstore} (h : encode m = .ok os) : decode os = .ok m := by
  obtain ⟨ls, hl, h⟩ := Except.bind_eq_ok_iff.1 h
  obtain ⟨es, he, h⟩ := Except.bind_eq_ok_iff.1 h
  cases h
  have ht := takeEntries_encodeEntries he .empty []
  rw [List.append_nil] at ht
  simp only [decode, takeLength_encodeLength hl, Except.ok_bind]
  rw [if_neg (by omega), Int.toNat_natCast, ht]
  exact congrArg Except.ok (Dictionary.ofList_entries m)

def Fits (m : Hstore) : Prop := (m.entries.length : Int) ≤ Int32.maxValue.toInt ∧
  ∀ e ∈ m.entries, ((Text.utf8 e.1).length : Int) ≤ Int32.maxValue.toInt ∧
    ∀ s ∈ e.2, ((Text.utf8 s).length : Int) ≤ Int32.maxValue.toInt

theorem exists_encodeText_iff {s : String} :
    (∃ os, encodeText s = .ok os) ↔ ((Text.utf8 s).length : Int) ≤ Int32.maxValue.toInt := by
  constructor
  · rintro ⟨os, h⟩
    obtain ⟨ls, hl, -⟩ := Except.bind_eq_ok_iff.1 h
    exact (encodeLength_eq_ok_iff.1 hl).1
  · intro h
    exact ⟨_, Except.bind_eq_ok_iff.2 ⟨_, encodeLength_eq_ok_iff.2 ⟨h, rfl⟩, rfl⟩⟩

theorem exists_encodeValue_iff {value : Option String} :
    (∃ os, encodeValue value = .ok os) ↔ ∀ s ∈ value, ((Text.utf8 s).length : Int) ≤ Int32.maxValue.toInt := by
  cases value with
  | none => exact ⟨fun _ _ hs ↦ (nomatch hs), fun _ ↦ ⟨_, rfl⟩⟩
  | some s => simpa [encodeValue] using exists_encodeText_iff

theorem exists_encodeEntries_iff {entries : List (String × Option String)} :
    (∃ os, encodeEntries entries = .ok os) ↔
      ∀ e ∈ entries, ((Text.utf8 e.1).length : Int) ≤ Int32.maxValue.toInt ∧
        ∀ s ∈ e.2, ((Text.utf8 s).length : Int) ≤ Int32.maxValue.toInt := by
  induction entries with
  | nil => exact ⟨fun _ _ he ↦ absurd he List.not_mem_nil, fun _ ↦ ⟨[], rfl⟩⟩
  | cons e entries ih =>
    obtain ⟨key, value⟩ := e
    rw [List.forall_mem_cons, ← ih, ← exists_encodeText_iff, ← exists_encodeValue_iff]
    constructor
    · rintro ⟨os, h⟩
      obtain ⟨ks, hk, vs, hv, es, he, -⟩ := encodeEntries_cons_eq_ok_iff.1 h
      exact ⟨⟨⟨ks, hk⟩, vs, hv⟩, es, he⟩
    · rintro ⟨⟨⟨ks, hk⟩, vs, hv⟩, es, he⟩
      exact ⟨_, encodeEntries_cons_eq_ok_iff.2 ⟨ks, hk, vs, hv, es, he, rfl⟩⟩

theorem exists_encode_iff {m : Hstore} : (∃ os, encode m = .ok os) ↔ m.Fits := by
  rw [Fits, ← exists_encodeEntries_iff]
  constructor
  · rintro ⟨os, h⟩
    obtain ⟨ls, hl, h⟩ := Except.bind_eq_ok_iff.1 h
    obtain ⟨es, he, -⟩ := Except.bind_eq_ok_iff.1 h
    exact ⟨(encodeLength_eq_ok_iff.1 hl).1, es, he⟩
  · rintro ⟨hl, es, he⟩
    refine ⟨Octets.ofInt 4 m.entries.length ++ es, Except.bind_eq_ok_iff.2 ?_⟩
    exact ⟨_, encodeLength_eq_ok_iff.2 ⟨hl, rfl⟩, Except.bind_eq_ok_iff.2 ⟨es, he, rfl⟩⟩

end Upsert.Hstore
