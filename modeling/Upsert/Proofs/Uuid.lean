import Upsert.Proofs.Text.Digits
import Upsert.Uuid

namespace Upsert

namespace Text

theorem hexDigit?_digitChar : ∀ n < 16, hexDigit? (Nat.digitChar n) = some n := by decide

theorem octetsOfHex?_cons (o : UInt8) (cs : List Char) :
    octetsOfHex? (hexDigits [o.toNat / 16, o.toNat % 16] ++ cs) = (o :: ·) <$> octetsOfHex? cs := by
  have ho := o.toNat_lt
  have hh := hexDigit?_digitChar (o.toNat / 16) (by omega)
  have hl := hexDigit?_digitChar (o.toNat % 16) (by omega)
  have he : UInt8.ofNat (o.toNat / 16 * 16 + o.toNat % 16) = o := by
    rw [Nat.div_add_mod', UInt8.ofNat_toNat]
  simp only [hexDigits, List.map_cons, List.map_nil, List.cons_append, List.nil_append, octetsOfHex?, hh, hl]
  show (do return UInt8.ofNat (o.toNat / 16 * 16 + o.toNat % 16) :: (← octetsOfHex? cs)) = _
  rw [he]
  cases octetsOfHex? cs <;> rfl

theorem octetsOfHex?_toList_hex (os : List UInt8) : octetsOfHex? (hex os).toList = some os := by
  rw [hex, String.toList_ofList]
  induction os with
  | nil => rfl
  | cons o os ih =>
    rw [List.flatMap_cons, octetsOfHex?_cons, ih]
    rfl

theorem length_toList_hex (os : List UInt8) : (hex os).toList.length = 2 * os.length := by
  rw [hex, String.toList_ofList]
  induction os with
  | nil => rfl
  | cons o os ih =>
    rw [List.flatMap_cons, List.length_append, ih, List.length_cons]
    simp only [hexDigits, List.length_map, List.length_cons, List.length_nil]
    omega

theorem toList_hex_append (os os' : List UInt8) : (hex (os ++ os')).toList = (hex os).toList ++ (hex os').toList := by
  simp only [hex, String.toList_ofList, List.flatMap_append]

end Text

namespace Uuid

variable {a b c d e : List Char}

theorem readHyphenated?_eq (ha : a.length = 8) (hb : b.length = 4) (hc : c.length = 4) (hd : d.length = 4)
    (he : e.length = 12) :
    readHyphenated? (a ++ '-' :: (b ++ '-' :: (c ++ '-' :: (d ++ '-' :: e)))) = readDigits? (a ++ b ++ c ++ d ++ e) := by
  have hnil : ∀ {n : Nat} {l : List Char}, l.length ≤ n → l.drop n = [] := List.drop_eq_nil_of_le
  have hmark : ∀ {n : Nat} {l l' : List Char}, l.length ≤ n → (l ++ l')[n]? = l'[n - l.length]? :=
    List.getElem?_append_right
  simp (disch := omega) [readHyphenated?, ha, hb, hc, hd, he, List.drop_append, hnil, hmark]
  rfl

theorem read?_of_hyphenated {s : String} (h : s.toList.length = 36) : read? s = readHyphenated? s.toList := by
  simp only [read?, h]
  rfl

theorem length_group (os : List UInt8) (skip count : Nat) (h : skip + count ≤ os.length) :
    (Text.hex ((os.drop skip).take count)).toList.length = 2 * count := by
  rw [Text.length_toList_hex, List.length_take_of_le]
  rw [List.length_drop]
  omega

theorem read?_text (u : Uuid) : read? u.text = some u := by
  obtain ⟨os, hl⟩ := u
  have ht : (text ⟨os, hl⟩).toList = (Text.hex ((os.drop 0).take 4)).toList ++ '-' ::
      ((Text.hex ((os.drop 4).take 2)).toList ++ '-' :: ((Text.hex ((os.drop 6).take 2)).toList ++ '-' ::
        ((Text.hex ((os.drop 8).take 2)).toList ++ '-' :: (Text.hex ((os.drop 10).take 6)).toList))) := by
    simp [text]
  have h₁ := length_group os 0 4 (by omega)
  have h₂ := length_group os 4 2 (by omega)
  have h₃ := length_group os 6 2 (by omega)
  have h₄ := length_group os 8 2 (by omega)
  have h₅ := length_group os 10 6 (by omega)
  have hlen : (text ⟨os, hl⟩).toList.length = 36 := by
    rw [ht]
    simp only [List.length_append, List.length_cons, h₁, h₂, h₃, h₄, h₅]
  have hs : (os.drop 0).take 4 ++ (os.drop 4).take 2 ++ (os.drop 6).take 2 ++ (os.drop 8).take 2 ++
      (os.drop 10).take 6 = os := by
    rw [List.drop_zero, ← List.take_add, ← List.take_add, ← List.take_add, ← List.take_add, List.take_of_length_le]
    omega
  rw [read?_of_hyphenated hlen, ht, readHyphenated?_eq h₁ h₂ h₃ h₄ h₅, ← Text.toList_hex_append, ← Text.toList_hex_append,
    ← Text.toList_hex_append, ← Text.toList_hex_append, hs, readDigits?, Text.octetsOfHex?_toList_hex]
  exact dif_pos hl

end Uuid

end Upsert
