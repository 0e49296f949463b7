import Upsert.Proofs.Binding.Found
import Upsert.Proofs.Text.Utf8
import Upsert.Proofs.Wire.Encode
import Upsert.Wire.Decode

namespace Upsert

theorem Json.length_stringText (s : String) : s.length + 2 ≤ (stringText s).length := by
  have he : ∀ c, 1 ≤ (escaped c).length := by
    intro c
    unfold escaped
    split_ifs <;> simp
  have hf : ∀ cs : List Char, cs.length ≤ (cs.flatMap escaped).length := by
    intro cs
    induction cs with
    | nil => exact Nat.zero_le _
    | cons c cs ih =>
      have := he c
      rw [List.flatMap_cons, List.length_append, List.length_cons]
      omega
  have := hf s.toList
  rw [stringText, String.length_ofList, List.length_append, List.length_cons, List.length_singleton]
  rw [String.length_toList] at this
  omega

namespace Value

def columnText? : Value → Option String
  | .int n => some (toString n.toInt)
  | .float x => some x.text
  | .decimal d => some d.text
  | .string s => some s
  | .json j => some j.text
  | .uuid u => some u.text
  | _ => none

def ComparedByText : Value → Prop
  | .string _ | .uuid _ => True
  | _ => False

variable {t : ColumnType} {v : Value} {os : Octets} {s : String}

theorem encode_of_columnText? (ht : t.isText) (h : v.columnText? = some s) :
    encode t v = .ok (some (Text.utf8 s)) := by
  cases v with
  | int n | float x | decimal d | string s | json j | uuid u =>
    obtain rfl := Option.some.inj h
    obtain rfl | rfl | rfl | rfl := ColumnType.eq_of_isText ht <;> rfl
  | _ => cases h

theorem isSome_columnText? (ht : t.isText) (h : encode t v = .ok (some os)) : v.columnText?.isSome := by
  cases v with
  | int n | float x | decimal d | string s | json j | uuid u => rfl
  | hstore m => exact absurd h (encode_hstore_ne_ok (ColumnType.isHstore_of_isText ht))
  | _ => obtain rfl | rfl | rfl | rfl := ColumnType.eq_of_isText ht <;> cases h

theorem decode_text (ht : t.isText) : decode t (some (Text.utf8 s)) = .ok (.string s) := by
  obtain rfl | rfl | rfl | rfl := ColumnType.eq_of_isText ht <;>
    simp only [decode, decodeOctets, decodeText, Text.ofUtf8_utf8] <;> rfl

theorem columnText?_found_iff (h : v.columnText? = some s) :
    (v.coerceLike (.string s)).canonical == (Value.string s).canonical ↔ v.ComparedByText := by
  cases v with
  | string s' =>
    cases h
    exact ⟨fun _ ↦ trivial, fun _ ↦ BEq.rfl⟩
  | uuid u =>
    obtain rfl := Option.some.inj h
    exact ⟨fun _ ↦ trivial, fun _ ↦ BEq.rfl⟩
  | json j =>
    refine ⟨fun he ↦ ?_, False.elim⟩
    cases j with
    | string s' =>
      cases h
      have hs : s' = Json.stringText s' := eq_of_beq (show (s' == Json.stringText s') = true from he)
      have hl := Json.length_stringText s'
      rw [← hs] at hl
      omega
    | _ => exact nomatch (show false = true from he)
  | int n => exact ⟨fun he ↦ (nomatch (show false = true from he)), False.elim⟩
  | float x => exact ⟨fun he ↦ (nomatch (show false = true from he)), False.elim⟩
  | decimal d => exact ⟨fun he ↦ (nomatch (show false = true from he)), False.elim⟩
  | _ => cases h

end Value

open Value Reconciliation

/-- What a column of text returns for a value is the text it was given. The value is found under it if it is a text or
an identifier, and no number and no document is. -/
theorem text_found_iff {t : ColumnType} {v : Value} {os : Octets} (ht : t.isText)
    (h : encode t v = .ok (some os)) :
    ∃ s, v.columnText? = some s ∧ decode t (some os) = .ok (.string s) ∧
      ((v.coerceLike (.string s)).canonical == (Value.string s).canonical ↔ v.ComparedByText) ∧
      ∀ (source : KeySource) (row stored : Row) (returned : List Row),
        stored ∈ returned → OneKind (source.returnedValues returned) →
        source.sentValue row = v → source.returnedValue stored = .string s →
        (returnedKey [source] stored = sentKey [source] returned row ↔ v.ComparedByText) := by
  obtain ⟨s, hs⟩ := Option.isSome_iff_exists.1 (isSome_columnText? ht h)
  have ho : Text.utf8 s = os := by
    rw [encode_of_columnText? ht hs] at h
    exact Option.some.inj (Except.ok.inj h)
  refine ⟨s, hs, ho ▸ decode_text ht, columnText?_found_iff hs, ?_⟩
  intro source row stored returned hm hk hv hr
  rw [returnedKey_eq_sentKey_iff_found hm (by rw [hr]; rfl) (by rw [hr]; exact nofun) hk, hv, hr]
  exact columnText?_found_iff hs

theorem not_text_found_number :
    encode (.base .text) (.int 42) = .ok (some (Text.utf8 "42")) ∧
      decode (.base .text) (some (Text.utf8 "42")) = .ok (.string "42") ∧
      ¬((Value.int 42).coerceLike (.string "42")).canonical == (Value.string "42").canonical := by
  have h : encode (.base .text) (.int 42) = .ok (some (Text.utf8 "42")) := rfl
  obtain ⟨s, hs, hd, hf, -⟩ := text_found_iff rfl h
  obtain rfl : "42" = s := Option.some.inj hs
  exact ⟨h, hd, hf.1⟩

end Upsert
