import Mathlib.Data.List.Induction
import Mathlib.Tactic.LinearCombination
import Mathlib.Tactic.Ring
import Upsert.Wire.Decode

namespace Upsert.Octets

variable (width : Nat) (n : Int) (os rest : Octets)

@[simp] theorem length_ofInt : (ofInt width n).length = width := by
  induction width generalizing n with
  | zero => rfl
  | succ width ih => rw [ofInt, List.length_append, ih, List.length_singleton]

theorem toNat_concat (o : UInt8) : toNat (os ++ [o]) = toNat os * 256 + o.toNat := by
  rw [toNat, List.foldl_append]
  rfl

theorem pow2_pos (n : Nat) : 0 < pow2 n := Nat.two_pow_pos n

theorem pow2_add (m n : Nat) : pow2 (m + n) = pow2 m * pow2 n := Nat.pow_add 2 m n

theorem emod_mul_pow2 (p : Nat) :
    n / 256 % pow2 p * 256 + n % 256 = n % (pow2 p * 256 : Nat) := by
  have hp : 0 < (pow2 p : Int) := Int.natCast_pos.2 (pow2_pos p)
  have hq := Int.emod_add_mul_ediv (n / 256) (pow2 p)
  have hn := Int.emod_add_mul_ediv n 256
  have hl := Int.emod_nonneg (n / 256) hp.ne'
  have hh := Int.emod_lt_of_pos (n / 256) hp
  generalize n / 256 % pow2 p = r at hl hh hq ⊢
  push_cast
  refine ((Int.ediv_emod_unique (q := n / 256 / pow2 p) (by omega)).2 ⟨?_, by omega, by omega⟩).2.symm
  linear_combination hn + 256 * hq

theorem toNat_ofInt : (toNat (ofInt width n) : Int) = n % pow2 (8 * width) := by
  induction width generalizing n with
  | zero => exact (Int.emod_one n).symm
  | succ width ih =>
    have ho : (UInt8.ofNat (n % 256).toNat).toNat = (n % 256).toNat := by
      rw [UInt8.toNat_ofNat', Nat.mod_eq_of_lt (by omega)]
    rw [ofInt, toNat_concat, ho, Nat.mul_succ 8, pow2_add]
    push_cast
    rw [ih, Int.toNat_of_nonneg (by omega)]
    exact emod_mul_pow2 n (8 * width)

variable {width n}

theorem toNat_ofInt_of_lt (hl : 0 ≤ n) (hh : n < pow2 (8 * width)) : toNat (ofInt width n) = n.toNat := by
  have h := toNat_ofInt width n
  rw [Int.emod_eq_of_lt hl hh] at h
  omega

theorem toInt_ofInt (hl : -(pow2 (8 * width) : Int) ≤ 2 * n) (hh : 2 * n < pow2 (8 * width)) :
    toInt (ofInt width n) = n := by
  have h := toNat_ofInt width n
  rw [toInt, length_ofInt]
  rcases Int.lt_or_le n 0 with hn | hn
  · have he : n % pow2 (8 * width) = n + pow2 (8 * width) := by
      rw [← Int.add_emod_right, Int.emod_eq_of_lt (by omega) (by omega)]
    rw [he] at h
    rw [if_neg (by omega), h]
    omega
  · rw [Int.emod_eq_of_lt hn (by omega)] at h
    rw [if_pos (by omega), h]

theorem split?_append : split? os.length (os ++ rest) = some (os, rest) := by
  rw [split?, if_pos (by simp), List.take_left, List.drop_left]

theorem takeInt?_ofInt (hl : -(pow2 (8 * width) : Int) ≤ 2 * n) (hh : 2 * n < pow2 (8 * width)) :
    takeInt? width (ofInt width n ++ rest) = some (n, rest) := by
  have h := split?_append (ofInt width n) rest
  rw [length_ofInt] at h
  simp only [takeInt?, h, Option.map_some, toInt_ofInt hl hh]

theorem takeNat?_ofInt (hl : 0 ≤ n) (hh : n < pow2 (8 * width)) :
    takeNat? width (ofInt width n ++ rest) = some (n.toNat, rest) := by
  have h := split?_append (ofInt width n) rest
  rw [length_ofInt] at h
  simp only [takeNat?, h, Option.map_some, toNat_ofInt_of_lt hl hh]

theorem ofInt_toNat_add (os : Octets) (k : Int) : ofInt os.length (toNat os + k * pow2 (8 * os.length)) = os := by
  induction os using List.reverseRecOn generalizing k with
  | nil => rfl
  | append_singleton os o ih =>
    have ho : o.toNat < 256 := o.toNat_lt
    have hp : (pow2 (8 * (os.length + 1)) : Int) = pow2 (8 * os.length) * 256 := by
      rw [Nat.mul_succ 8, pow2_add]
      rfl
    have hn : ((toNat (os ++ [o]) : Nat) : Int) + k * pow2 (8 * (os.length + 1)) =
        (toNat os + k * pow2 (8 * os.length)) * 256 + o.toNat := by
      rw [hp, toNat_concat]
      push_cast
      ring
    rw [List.length_append, List.length_singleton, hn, ofInt]
    have hd : ((toNat os + k * pow2 (8 * os.length)) * 256 + (o.toNat : Int)) / 256 =
        toNat os + k * pow2 (8 * os.length) := by omega
    have hm : ((toNat os + k * pow2 (8 * os.length)) * 256 + (o.toNat : Int)) % 256 = o.toNat := by omega
    rw [hd, hm, ih, Int.toNat_natCast, UInt8.ofNat_toNat]

theorem toNat_lt (os : Octets) : toNat os < pow2 (8 * os.length) := by
  induction os using List.reverseRecOn with
  | nil => exact Nat.one_pos
  | append_singleton os o ih =>
    have ho : o.toNat < 256 := o.toNat_lt
    have hp : pow2 (8 * (os.length + 1)) = pow2 (8 * os.length) * 256 := by
      rw [Nat.mul_succ 8, pow2_add]
      rfl
    rw [List.length_append, List.length_singleton, toNat_concat, hp]
    omega

theorem toInt_bounds (os : Octets) :
    -(pow2 (8 * os.length) : Int) ≤ 2 * toInt os ∧ 2 * toInt os < pow2 (8 * os.length) := by
  have h := toNat_lt os
  rw [toInt]
  split <;> omega

theorem ofInt_toInt (os : Octets) : ofInt os.length (toInt os) = os := by
  rw [toInt]
  split
  · simpa using ofInt_toNat_add os 0
  · simpa [sub_eq_add_neg] using ofInt_toNat_add os (-1)

theorem split?_eq_some_iff {width : Nat} {front os rest : Octets} :
    split? width os = some (front, rest) ↔ os = front ++ rest ∧ front.length = width := by
  constructor
  · intro h
    rw [split?] at h
    split at h
    · next hw =>
      cases h
      exact ⟨(List.take_append_drop width os).symm, List.length_take_of_le hw⟩
    · cases h
  · rintro ⟨rfl, rfl⟩
    exact split?_append front rest

theorem takeInt?_eq_some_iff {width : Nat} {os rest : Octets} {n : Int} :
    takeInt? width os = some (n, rest) ↔
      os = ofInt width n ++ rest ∧ -(pow2 (8 * width) : Int) ≤ 2 * n ∧ 2 * n < pow2 (8 * width) := by
  constructor
  · intro h
    obtain ⟨⟨front, rest'⟩, hs, he⟩ := Option.map_eq_some_iff.1 h
    cases he
    obtain ⟨rfl, rfl⟩ := split?_eq_some_iff.1 hs
    rw [ofInt_toInt]
    exact ⟨rfl, toInt_bounds front⟩
  · rintro ⟨rfl, hl, hh⟩
    exact takeInt?_ofInt rest hl hh

end Upsert.Octets

namespace Upsert.Value

theorem takeInt_ofInt (width : Nat) (n : Int) (hl : -(pow2 (8 * width) : Int) ≤ 2 * n)
    (hh : 2 * n < pow2 (8 * width)) (rest : Octets) :
    takeInt width (Octets.ofInt width n ++ rest) = .ok (n, rest) := by
  rw [takeInt, Octets.takeInt?_ofInt rest hl hh]
  rfl

theorem takeNat_ofInt (width : Nat) (n : Int) (hl : 0 ≤ n) (hh : n < pow2 (8 * width)) (rest : Octets) :
    takeNat width (Octets.ofInt width n ++ rest) = .ok (n.toNat, rest) := by
  rw [takeNat, Octets.takeNat?_ofInt rest hl hh]
  rfl

theorem takeInt_ofInt_nil (width : Nat) (n : Int) (hl : -(pow2 (8 * width) : Int) ≤ 2 * n)
    (hh : 2 * n < pow2 (8 * width)) : takeInt width (Octets.ofInt width n) = .ok (n, []) := by
  have h := takeInt_ofInt width n hl hh []
  rwa [List.append_nil] at h

theorem takeNat_ofInt_nil (width : Nat) (n : Int) (hl : 0 ≤ n) (hh : n < pow2 (8 * width)) :
    takeNat width (Octets.ofInt width n) = .ok (n.toNat, []) := by
  have h := takeNat_ofInt width n hl hh []
  rwa [List.append_nil] at h

end Upsert.Value
