import Upsert.Proofs.Binding.Found
import Upsert.Proofs.Wire.Hstore
import Upsert.Wire.Decode

namespace Upsert

namespace Json

/-- A text or null, as members are that can be entries of a map. -/
def IsFlat (j : Json) : Prop := j = .null ∨ ∃ s, j = .string s

def entry : Json → Option String
  | .string s => some s
  | _ => none

end Json

def Hstore.ofMembers (ms : List (String × Json)) : Hstore := Dictionary.ofList (ms.map fun e ↦ (e.1, e.2.entry))

namespace Hstore

variable {ms : List (String × Json)}

theorem entries_ofMembers (h : Ascending ms) : (ofMembers ms).entries = ms.map fun e ↦ (e.1, e.2.entry) :=
  Dictionary.entries_ofList (List.pairwise_map.2 h)

theorem find?_ofMembers (h : Ascending ms) (key : String) :
    (ofMembers ms).find? key = (ms.lookup key).map Json.entry := by
  rw [Dictionary.find?, entries_ofMembers h]
  clear h
  induction ms with
  | nil => rfl
  | cons e ms ih =>
    rw [List.map_cons, List.lookup_cons, List.lookup_cons, ih]
    cases key == e.1 <;> rfl

end Hstore

namespace ColumnType

variable {t : ColumnType}

theorem eq_of_isHstore (h : t.isHstore) :
    t = .base (.other "hstore") ∨ ∃ schema labels, t = .defined schema "hstore" labels := by
  cases t with
  | base b => cases b <;> simp_all [isHstore, name, BaseType.typeName]
  | defined schema name labels => exact .inr ⟨schema, labels, by simp_all [isHstore, ColumnType.name]⟩

end ColumnType

namespace Value

variable {t : ColumnType} {ms : List (String × Json)}

theorem mapM_eq_some_map {α β : Type} {f : α → Option β} {g : α → β} {xs : List α}
    (h : ∀ x ∈ xs, f x = some (g x)) : xs.mapM f = some (xs.map g) := by
  induction xs with
  | nil => rfl
  | cons x xs ih =>
    rw [List.mapM_cons, h x List.mem_cons_self, ih fun y hy ↦ h y (List.mem_cons_of_mem _ hy)]
    rfl

theorem hstoreEntries?_of_flat (h : ∀ e ∈ ms, e.2.IsFlat) :
    hstoreEntries? (.object ms) = some (.ofMembers ms) := by
  rw [hstoreEntries?, mapM_eq_some_map (g := fun e ↦ (e.1, e.2.entry))]
  · rfl
  · rintro ⟨k, j⟩ he
    obtain rfl | ⟨s, rfl⟩ := h _ he <;> rfl

theorem encodeDocument_of_isHstore (ht : t.isHstore) (j : Json) :
    encodeDocument t j = (hstoreEntries? j).elim (unbindable t "json") encodeHstore := by
  obtain rfl | ⟨schema, labels, rfl⟩ := ColumnType.eq_of_isHstore ht <;> rfl

theorem encode_object (ht : t.isHstore) (h : ∀ e ∈ ms, e.2.IsFlat) :
    encode t (.json (.object ms)) = some <$> (Hstore.encode (.ofMembers ms)).mapError .hstore := by
  rw [encode, encodeDocument_of_isHstore ht, hstoreEntries?_of_flat h]
  rfl

theorem encode_object_eq_ok_iff (ht : t.isHstore) (h : ∀ e ∈ ms, e.2.IsFlat) {os : Octets} :
    encode t (.json (.object ms)) = .ok (some os) ↔ Hstore.encode (.ofMembers ms) = .ok os := by
  rw [encode_object ht h, Except.map_some_eq_ok_iff, Except.mapError_eq_ok_iff]

theorem exists_member (h : ∀ e ∈ ms, e.2.IsFlat) (key : String) :
    ms.lookup key = none ∨ ms.lookup key = some .null ∨ ∃ s, ms.lookup key = some (.string s) := by
  cases hl : ms.lookup key with
  | none => exact .inl rfl
  | some j =>
    obtain ⟨l, r, rfl, -⟩ := List.lookup_eq_some_iff.1 hl
    obtain rfl | ⟨s, rfl⟩ := h (key, j) (by simp)
    · exact .inr (.inl rfl)
    · exact .inr (.inr ⟨s, rfl⟩)

theorem extractKey_ofMembers (ha : Ascending ms) (key : String) :
    extractKey key (.hstore (.ofMembers ms)) = ((ms.lookup key).bind Json.entry).elim .null .string := by
  rw [extractKey, Hstore.find?_ofMembers ha]
  cases ms.lookup key <;> rfl

theorem shaped_null (like : Option Value) : Key.shaped like .null = .null := by
  cases like <;> rfl

theorem shaped_null_document (like : Option Value) : Key.shaped like (.json .null) = .json .null := by
  cases like with
  | none => rfl
  | some w => cases w <;> rfl

theorem extractKey_found_iff (ha : Ascending ms) (hf : ∀ e ∈ ms, e.2.IsFlat) (key s : String) :
    ((extractKey key (.json (.object ms))).coerceLike (.string s)).canonical ==
      (extractKey key (.hstore (.ofMembers ms))).canonical ↔ ms.lookup key ≠ some .null := by
  rw [extractKey_ofMembers ha, extractKey]
  obtain hl | hl | ⟨s, hl⟩ := exists_member hf key <;> rw [hl]
  · exact ⟨fun _ ↦ nofun, fun _ ↦ rfl⟩
  · exact ⟨fun h ↦ (nomatch (show false = true from h)), fun h ↦ absurd rfl h⟩
  · exact ⟨fun _ ↦ nofun, fun _ ↦ BEq.rfl⟩

end Value

open Value Reconciliation

variable {t : ColumnType} {ms : List (String × Json)} {key : String} {source : KeySource}
  {row stored : Row} {returned : List Row}

theorem KeySource.extracted_matched_iff (ha : Ascending ms) (hf : ∀ e ∈ ms, e.2.IsFlat)
    (hm : stored ∈ returned) (hk : OneKind (source.returnedValues returned))
    (hv : source.sentValue row = extractKey key (.json (.object ms)))
    (hr : source.returnedValue stored = extractKey key (.hstore (.ofMembers ms))) :
    returnedKey [source] stored = sentKey [source] returned row ↔ ms.lookup key ≠ some .null := by
  rw [extractKey] at hv
  rw [extractKey_ofMembers ha] at hr
  obtain hl | hl | ⟨s, hl⟩ := exists_member hf key <;> rw [hl] at hv hr ⊢
  · rw [returnedKey_singleton_iff, KeySource.readValue, hv, hr, Option.elim_none, shaped_null]
    exact ⟨fun _ ↦ (Option.some_ne_none _).symm, fun _ ↦ by decide⟩
  · rw [returnedKey_singleton_iff, KeySource.readValue, hv, hr, Option.elim_some, shaped_null_document]
    exact ⟨fun h ↦ absurd h (by decide), fun h ↦ absurd rfl h⟩
  · rw [returnedKey_eq_sentKey_iff_found hm (by rw [hr]; rfl) (by simp [hr, Json.entry]) hk, hv, hr]
    exact ⟨fun _ ↦ by simp, fun _ ↦ BEq.rfl⟩

/-- A flat object is stored as the map of its entries. What the server takes out of that map is found again by what
is taken out of the object, unless it is a null member. -/
theorem entry_found_iff (ht : t.isHstore) (ha : Ascending ms) (hf : ∀ e ∈ ms, e.2.IsFlat) :
    ((∃ os, encode t (.json (.object ms)) = .ok (some os)) ↔ (Hstore.ofMembers ms).Fits) ∧
    (∀ os, encode t (.json (.object ms)) = .ok (some os) → Hstore.decode os = .ok (.ofMembers ms)) ∧
    (∀ key s, ((extractKey key (.json (.object ms))).coerceLike (.string s)).canonical ==
        (extractKey key (.hstore (.ofMembers ms))).canonical ↔ ms.lookup key ≠ some .null) ∧
    ∀ key (source : KeySource) (row stored : Row) (returned : List Row),
      stored ∈ returned → OneKind (source.returnedValues returned) →
      source.sentValue row = extractKey key (.json (.object ms)) →
      source.returnedValue stored = extractKey key (.hstore (.ofMembers ms)) →
      (returnedKey [source] stored = sentKey [source] returned row ↔ ms.lookup key ≠ some .null) := by
  refine ⟨?_, fun os ho ↦ ?_, extractKey_found_iff ha hf, fun key source row stored returned hm hk hv hr ↦ ?_⟩
  · simp only [encode_object_eq_ok_iff ht hf, Hstore.exists_encode_iff]
  · exact Hstore.decode_encode ((encode_object_eq_ok_iff ht hf).1 ho)
  · exact KeySource.extracted_matched_iff ha hf hm hk hv hr

theorem not_entry_found_null :
    let ms : List (String × Json) := [("en", .null), ("ro", .string "a")]
    (∃ os, encode (.defined "public" "hstore" none) (.json (.object ms)) = .ok (some os)) ∧
      ¬((extractKey "en" (.json (.object ms))).coerceLike (.string "a")).canonical ==
        (extractKey "en" (.hstore (.ofMembers ms))).canonical := by
  intro ms
  have ha : Ascending ms := List.pairwise_pair.2 (by decide)
  have hf : ∀ e ∈ ms, e.2.IsFlat := by
    rintro e he
    obtain rfl | he := List.mem_cons.1 he
    · exact .inl rfl
    · obtain rfl := List.mem_singleton.1 he
      exact .inr ⟨_, rfl⟩
  have h := entry_found_iff (t := .defined "public" "hstore" none) rfl ha hf
  refine ⟨h.1.2 ?_, fun he ↦ (h.2.2.1 "en" "a").1 he rfl⟩
  rw [Hstore.Fits, Hstore.entries_ofMembers ha]
  decide

end Upsert
