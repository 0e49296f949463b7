import Upsert.Proofs.Value.Equality
import Upsert.Value.Canonical

namespace Upsert

namespace Binary64

variable {x y : Binary64}

theorem isZero_of_plain_eq (h : x.plain = y.plain) (hx : x.isZero) : y.isZero := by
  rw [plain, plain, if_pos hx] at h
  split at h
  · assumption
  · exact h ▸ (by decide : Binary64.zero.isZero)

theorem eq_of_isZero (hx : x.isZero) (hy : y.isZero) (hn : x.isNegative = y.isNegative) : x = y := by
  have hp : pow2 63 = 9223372036854775808 := by decide
  simp only [isZero, magnitude, isNegative, beq_iff_eq, decide_eq_decide, hp] at hx hy hn
  have hb : x.bits.toNat = y.bits.toNat := by
    have hl := x.bits.toNat_lt
    have hl' := y.bits.toNat_lt
    omega
  cases x
  cases y
  exact congrArg Binary64.mk (UInt64.toNat_inj.1 hb)

theorem toList_jsonText_of_isZero (h : x.isZero) :
    x.jsonText.toList = if x.isNegative then ['-', '0', '.', '0'] else ['0', '.', '0'] := by
  rw [jsonText, String.toList_append, if_pos h, signText]
  cases x.isNegative <;> rfl

theorem jsonText_append_inj (h : x.plain = y.plain) {s t : List Char}
    (he : x.jsonText.toList ++ s = y.jsonText.toList ++ t) : x = y ∧ s = t := by
  have hxy : x = y := by
    by_cases hx : x.isZero
    · have hy := isZero_of_plain_eq h hx
      rw [toList_jsonText_of_isZero hx, toList_jsonText_of_isZero hy] at he
      refine eq_of_isZero hx hy ?_
      cases hnx : x.isNegative <;> cases hny : y.isNegative <;> simp [hnx, hny] at he ⊢
    · have hy : ¬y.isZero := fun hy ↦ hx (isZero_of_plain_eq h.symm hy)
      rwa [plain, plain, if_neg hx, if_neg hy] at h
  subst hxy
  exact ⟨rfl, List.append_cancel_left he⟩

end Binary64

theorem JsonNumber.text_append_inj {m n : JsonNumber} (h : m.plain = n.plain) {s t : List Char}
    (he : m.text.toList ++ s = n.text.toList ++ t) : m = n ∧ s = t := by
  cases m with
  | int m =>
    cases n with
    | int n =>
      obtain rfl : m = n := by simpa [plain] using h
      exact ⟨rfl, List.append_cancel_left he⟩
    | float y hy => simp [plain] at h
  | float x hx =>
    cases n with
    | int n => simp [plain] at h
    | float y hy =>
      obtain ⟨rfl, rfl⟩ := Binary64.jsonText_append_inj (by simpa [plain] using h) he
      exact ⟨rfl, rfl⟩

namespace Json

theorem toList_textOfItems_cons (x : Json) (xs : List Json) : (textOfItems (x :: xs)).toList =
    x.text.toList ++ if xs.isEmpty then [] else ',' :: (textOfItems xs).toList := by
  cases xs with
  | nil => simp [textOfItems]
  | cons y ys => simp [textOfItems]

theorem toList_textOfMembers_cons (k : String) (x : Json) (ms : List (String × Json)) :
    (textOfMembers ((k, x) :: ms)).toList = (stringText k).toList ++ ':' ::
      (x.text.toList ++ if ms.isEmpty then [] else ',' :: (textOfMembers ms).toList) := by
  cases ms with
  | nil => simp [textOfMembers]
  | cons m ms => simp [textOfMembers]

theorem rest_append_inj {xs ys : List Json} (h : plainItems xs = plainItems ys) {s t : List Char}
    (he : (if xs.isEmpty then [] else ',' :: (textOfItems xs).toList) ++ s =
      (if ys.isEmpty then [] else ',' :: (textOfItems ys).toList) ++ t) :
    (textOfItems xs).toList ++ s = (textOfItems ys).toList ++ t := by
  cases xs <;> cases ys <;> simp_all [plainItems, textOfItems]

theorem rest_append_inj_members {ms ns : List (String × Json)} (h : plainMembers ms = plainMembers ns)
    {s t : List Char} (he : (if ms.isEmpty then [] else ',' :: (textOfMembers ms).toList) ++ s =
      (if ns.isEmpty then [] else ',' :: (textOfMembers ns).toList) ++ t) :
    (textOfMembers ms).toList ++ s = (textOfMembers ns).toList ++ t := by
  cases ms <;> cases ns <;> simp_all [plainMembers, textOfMembers]

mutual

theorem text_append_inj (i j : Json) (h : i.plain = j.plain) {s t : List Char}
    (he : i.text.toList ++ s = j.text.toList ++ t) : i = j ∧ s = t := by
  cases i with
  | number m =>
    cases j with
    | number n =>
      obtain ⟨rfl, rfl⟩ := JsonNumber.text_append_inj (by simpa [plain] using h) he
      exact ⟨rfl, rfl⟩
    | _ => simp [plain] at h
  | array xs =>
    cases j with
    | array ys =>
      have hi : plainItems xs = plainItems ys := by simpa [plain] using h
      simp only [text, String.toList_append, List.append_assoc] at he
      obtain ⟨rfl, hs⟩ := textOfItems_append_inj xs ys hi (List.append_cancel_left he)
      exact ⟨rfl, List.append_cancel_left hs⟩
    | _ => simp [plain] at h
  | object ms =>
    cases j with
    | object ns =>
      have hm : plainMembers ms = plainMembers ns := by simpa [plain] using h
      simp only [text, String.toList_append, List.append_assoc] at he
      obtain ⟨rfl, hs⟩ := textOfMembers_append_inj ms ns hm (List.append_cancel_left he)
      exact ⟨rfl, List.append_cancel_left hs⟩
    | _ => simp [plain] at h
  | null =>
    cases j with
    | null => exact ⟨rfl, List.append_cancel_left he⟩
    | _ => simp [plain] at h
  | boolean b =>
    cases j with
    | boolean c =>
      obtain rfl : b = c := by simpa [plain] using h
      exact ⟨rfl, List.append_cancel_left he⟩
    | _ => simp [plain] at h
  | string u =>
    cases j with
    | string v =>
      obtain rfl : u = v := by simpa [plain] using h
      exact ⟨rfl, List.append_cancel_left he⟩
    | _ => simp [plain] at h

theorem textOfItems_append_inj (xs ys : List Json) (h : plainItems xs = plainItems ys) {s t : List Char}
    (he : (textOfItems xs).toList ++ s = (textOfItems ys).toList ++ t) : xs = ys ∧ s = t := by
  cases xs with
  | nil =>
    cases ys with
    | nil => exact ⟨rfl, he⟩
    | cons y ys => simp [plainItems] at h
  | cons x xs =>
    cases ys with
    | nil => simp [plainItems] at h
    | cons y ys =>
      obtain ⟨hx, hxs⟩ := List.cons_eq_cons.1 h
      rw [toList_textOfItems_cons, toList_textOfItems_cons, List.append_assoc, List.append_assoc] at he
      obtain ⟨rfl, hs⟩ := text_append_inj x y hx he
      obtain ⟨rfl, ht⟩ := textOfItems_append_inj xs ys hxs (rest_append_inj hxs hs)
      exact ⟨rfl, ht⟩

theorem textOfMembers_append_inj (ms ns : List (String × Json)) (h : plainMembers ms = plainMembers ns)
    {s t : List Char} (he : (textOfMembers ms).toList ++ s = (textOfMembers ns).toList ++ t) :
    ms = ns ∧ s = t := by
  cases ms with
  | nil =>
    cases ns with
    | nil => exact ⟨rfl, he⟩
    | cons n ns => simp [plainMembers] at h
  | cons m ms =>
    obtain ⟨k, x⟩ := m
    cases ns with
    | nil => simp [plainMembers] at h
    | cons n ns =>
      obtain ⟨l, y⟩ := n
      obtain ⟨hk, hms⟩ := List.cons_eq_cons.1 h
      obtain ⟨rfl, hx⟩ := Prod.mk.inj hk
      simp only [toList_textOfMembers_cons, List.append_assoc, List.cons_append] at he
      have hv := (List.cons_eq_cons.1 (List.append_cancel_left he)).2
      obtain ⟨rfl, hs⟩ := text_append_inj x y hx hv
      obtain ⟨rfl, ht⟩ := textOfMembers_append_inj ms ns hms (rest_append_inj_members hms hs)
      exact ⟨rfl, ht⟩

end

theorem text_eq_iff {i j : Json} (h : i.eq j) : i.text = j.text ↔ i = j := by
  constructor
  · intro ht
    exact (text_append_inj i j ((eq_iff i j).1 h) (congrArg (·.toList ++ []) ht)).1
  · rintro rfl
    rfl

end Json

namespace Value

variable {v w : Value}

def document? : Value → Option Json
  | .json j => some j
  | _ => none

/-- Equal values differ in how decimals are spelled and in the signs of zeros in documents. -/
theorem eq_cases (h : v == w) : v = w ∨ (∃ c d, v = .decimal c ∧ w = .decimal d ∧ c.normalized = d.normalized) ∨
    ∃ i j, v = .json i ∧ w = .json j ∧ i.eq j := by
  have hp := (beq_iff v w).1 h
  cases v <;> cases w <;> simp_all [plain, Json.eq_iff]

theorem document?_canonical (v : Value) : v.canonical.document? = v.document? := by
  cases v <;> rfl

theorem canonical_beq (h : v == w) : v.canonical == w.canonical := by
  rcases eq_cases h with rfl | ⟨c, d, rfl, rfl, hn⟩ | ⟨i, j, rfl, rfl, -⟩
  · exact BEq.refl _
  · exact (beq_iff _ _).2 (by rw [canonical, canonical, hn])
  · exact h

theorem fingerprint_eq_iff (h : v == w) : v.fingerprint = w.fingerprint ↔ v.document? = w.document? := by
  rcases eq_cases h with rfl | ⟨c, d, rfl, rfl, hn⟩ | ⟨i, j, rfl, rfl, he⟩
  · exact ⟨fun _ ↦ rfl, fun _ ↦ rfl⟩
  · exact ⟨fun _ ↦ rfl, fun _ ↦ by rw [fingerprint, fingerprint, hn]⟩
  · simp [fingerprint, document?, Json.text_eq_iff he]

theorem fingerprint_canonical_eq_iff (h : v == w) :
    v.canonical.fingerprint = w.canonical.fingerprint ↔ v.document? = w.document? := by
  rw [fingerprint_eq_iff (canonical_beq h), document?_canonical, document?_canonical]

end Value

end Upsert
