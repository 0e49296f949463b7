import Upsert.Proofs.Binding.Scalar
import Upsert.Proofs.Number.Single
import Upsert.Proofs.Value.Canonical

namespace Upsert

namespace Binary64

variable {x : Binary64}

theorem isSingle_of_isZero (h : x.isZero) : x.IsSingle := by
  have hz (negative : Bool) : (Binary32.ofMagnitude negative 0).toBinary64.isZero ∧
      (Binary32.ofMagnitude negative 0).toBinary64.isNegative = negative := by
    cases negative <;> decide
  obtain ⟨hy, hn⟩ := hz x.isNegative
  exact ⟨_, eq_of_isZero hy h hn⟩

theorem plain_eq_iff_isSingle {y : Binary32} (h : x.IsSingle → y.toBinary64 = x) :
    x.plain = y.toBinary64.plain ↔ x.IsSingle := by
  constructor
  · intro he
    by_cases hx : x.isZero
    · exact isSingle_of_isZero hx
    · have hy : ¬y.toBinary64.isZero := fun hy ↦ hx (isZero_of_plain_eq he.symm hy)
      rw [plain, plain, if_neg hx, if_neg hy] at he
      exact ⟨y, he.symm⟩
  · intro hx
    rw [h hx]

end Binary64

namespace Value

variable {v : Value} {os : Octets}

theorem decodeFloat4_ofInt (y : Binary32) : decodeFloat4 (Octets.ofInt 4 y.bits.toNat) = .ok y.toBinary64 := by
  have hy : y.bits.toNat < 2 ^ 32 := y.bits.toNat_lt
  have hp : (pow2 (8 * 4) : ℤ) = 2 ^ 32 := by decide
  have ht := takeNat_ofInt_nil 4 y.bits.toNat (by omega) (by omega)
  rw [decodeFloat4, ht, Except.ok_bind, drained, Except.ok_bind, Int.toNat_natCast, UInt32.ofNat_toNat]
  rfl

theorem decode_single (y : Binary32) :
    decode (.base .float4) (some (Octets.ofInt 4 y.bits.toNat)) = .ok (.float y.toBinary64) := by
  rw [decode, decodeOctets, decodeFloat4_ofInt]
  rfl

theorem exists_single (h : encode (.base .float4) v = .ok (some os)) :
    ∃ (x : Binary64) (y : Binary32), v.double? = some x ∧ os = Octets.ofInt 4 y.bits.toNat ∧
      (x.IsSingle → y.toBinary64 = x) := by
  cases v with
  | int n =>
    cases h
    refine ⟨_, _, rfl, rfl, ?_⟩
    intro hx
    obtain ⟨y, hy⟩ := hx
    have hl := n.le_toInt
    have hh := n.toInt_lt
    rw [Binary32.ofInt_of_toBinary64 (by omega) hy, hy]
  | float x | decimal d =>
    cases h
    exact ⟨_, _, rfl, rfl, Binary64.IsSingle.narrowed⟩
  | string s =>
    obtain ⟨x, hx, ho⟩ := Except.bind_eq_ok_iff.1 (Except.map_some_eq_ok_iff.1 h)
    cases ho
    exact ⟨x, _, Except.toOption_eq_some_iff.2 (Except.mapError_eq_ok_iff.1 hx), rfl, Binary64.IsSingle.narrowed⟩
  | _ => cases h

end Value

open Value Reconciliation

/-- A value that is sent to a column of single precision is found under what the column returns for it if single
precision has its number, and only then. -/
theorem single_found_iff {v : Value} {os : Octets} (h : encode (.base .float4) v = .ok (some os)) :
    ∃ x r, v.double? = some x ∧ decode (.base .float4) (some os) = .ok r ∧
      ((v.coerceLike r).canonical == r.canonical ↔ x.IsSingle) ∧
      ∀ (source : KeySource) (row stored : Row) (returned : List Row),
        stored ∈ returned → OneKind (source.returnedValues returned) →
        source.sentValue row = v → source.returnedValue stored = r →
        (returnedKey [source] stored = sentKey [source] returned row ↔ x.IsSingle) := by
  obtain ⟨x, y, hx, rfl, hy⟩ := exists_single h
  have hf : (v.coerceLike (.float y.toBinary64)).canonical == (Value.float y.toBinary64).canonical ↔ x.IsSingle := by
    rw [coerceLike_double hx, canonical_float_beq_iff, Binary64.plain_eq_iff_isSingle hy]
  refine ⟨x, .float y.toBinary64, hx, decode_single y, hf, ?_⟩
  intro source row stored returned hm hk hs hr
  rw [returnedKey_eq_sentKey_iff_found hm (by rw [hr]; rfl) (by rw [hr]; exact nofun) hk, hs, hr]
  exact hf

theorem not_single_found_tenth :
    let x : Binary64 := ⟨0x3fb999999999999a⟩
    let os : Octets := [0x3d, 0xcc, 0xcc, 0xcd]
    let r : Value := .float ⟨0x3fb99999a0000000⟩
    encode (.base .float4) (.float x) = .ok (some os) ∧ decode (.base .float4) (some os) = .ok r ∧
      ¬((Value.float x).coerceLike r).canonical == r.canonical ∧ ¬x.IsSingle := by
  intro x os r
  have he : encode (.base .float4) (.float x) = .ok (some os) := by decide
  have hd : decode (.base .float4) (some os) = .ok r := by
    have ho : os = Octets.ofInt 4 (⟨0x3dcccccd⟩ : Binary32).bits.toNat := by decide
    have hr : (⟨0x3dcccccd⟩ : Binary32).toBinary64 = ⟨0x3fb99999a0000000⟩ := by decide
    rw [ho, decode_single, hr]
  have hn : ¬((Value.float x).coerceLike r).canonical == r.canonical := by decide
  obtain ⟨x', r', hx, hr, hf, -⟩ := single_found_iff he
  cases hx
  rw [hd] at hr
  cases hr
  exact ⟨he, hd, hn, fun hs ↦ hn (hf.2 hs)⟩

end Upsert
