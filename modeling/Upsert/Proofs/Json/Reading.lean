import Upsert.Form.Reader
import Upsert.Proofs.Number.Spelling
import Upsert.Proofs.Value.Fingerprint

namespace Upsert

namespace Json

/-- The numbers of a tree are whole and have 64 bits, one of them for the sign of those below zero. -/
inductive Whole : Json → Prop
  | null : Whole .null
  | boolean (b : Bool) : Whole (.boolean b)
  | int {n : Int} (hl : -(pow2 63 : Int) ≤ n) (hh : n < pow2 64) : Whole (.number (.int n))
  | string (s : String) : Whole (.string s)
  | array {xs : List Json} (h : ∀ x ∈ xs, Whole x) : Whole (.array xs)
  | object {ms : List (String × Json)} (h : ∀ e ∈ ms, Whole e.2) : Whole (.object ms)

theorem Whole.single {tag : String} {j : Json} (h : j.Whole) : (Json.object [(tag, j)]).Whole :=
  .object (List.forall_mem_singleton.2 h)

theorem Whole.map {α : Type} {form : α → Json} {as : List α} (h : ∀ a ∈ as, (form a).Whole) :
    (Json.array (as.map form)).Whole := .array (List.forall_mem_map.2 h)

theorem Whole.optional {α : Type} {form : α → Json} {o : Option α} (h : ∀ a ∈ o, (form a).Whole) :
    (o.elim .null form).Whole := by
  cases o with
  | none => exact .null
  | some a => exact h a rfl

end Json

namespace Outline

open Json Text

theorem hexUnit?_control (n : Nat) (h : n < 0x20) :
    hexUnit? '0' '0' (Nat.digitChar (n / 16)) (Nat.digitChar (n % 16)) = some n := by
  decide +revert

theorem pushUnit_control (cs : List Char) {c : Char} (h : c.toNat < 0x20) :
    TextScan.pushUnit ⟨cs, none, none⟩ c.toNat = ⟨c :: cs, none, none⟩ := by
  have hl : ¬(0xD800 ≤ c.toNat ∧ c.toNat ≤ 0xDBFF) := by omega
  have hh : ¬(0xDC00 ≤ c.toNat ∧ c.toNat ≤ 0xDFFF) := by omega
  simp only [TextScan.pushUnit, if_neg hl, if_neg hh, Char.ofNat_toNat]

theorem readText_cons {t : TextScan} {c : Char} {rest : List Char} (hq : c ≠ '"') (hb : c ≠ '\\')
    (hc : ¬c.toNat < 0x20) : readText t (c :: rest) = readText (t.push c) rest := by
  rw [readText, if_neg hc]
  · exact hq
  · intro _ _ _ _ _ h
    exact absurd h hb
  · intro _ h
    exact absurd h hb
  · intro _ _ h
    exact absurd h hb
  · intro h
    exact absurd h hb

theorem readText_escaped (c : Char) (cs rest : List Char) :
    readText ⟨cs, none, none⟩ (Json.escaped c ++ rest) = readText ⟨c :: cs, none, none⟩ rest := by
  rw [Json.escaped]
  split_ifs with h₁ h₂ h₃ h₄ h₅ h₆ h₇ h₈
  · subst h₁
    rfl
  · subst h₂
    rfl
  · subst h₃
    rfl
  · subst h₄
    rfl
  · subst h₅
    rfl
  · subst h₆
    rfl
  · subst h₇
    rfl
  · simp only [hexDigits, List.map_cons, List.map_nil, List.cons_append, List.nil_append, readText,
      hexUnit?_control _ h₈, pushUnit_control cs h₈]
  · rw [List.singleton_append, readText_cons h₁ h₂ h₈]
    rfl

theorem readText_flatMap (s cs rest : List Char) :
    readText ⟨cs, none, none⟩ (s.flatMap Json.escaped ++ '"' :: rest) =
      .closed (.ok (String.ofList (cs.reverse ++ s))) rest := by
  induction s generalizing cs with
  | nil =>
    rw [List.append_nil]
    rfl
  | cons c s ih =>
    rw [List.flatMap_cons, List.append_assoc, readText_escaped, ih, List.reverse_cons, List.append_assoc]
    rfl

theorem readText_string (s : String) (rest : List Char) :
    readText {} (s.toList.flatMap Json.escaped ++ '"' :: rest) = .closed (.ok s) rest := by
  rw [readText_flatMap, List.reverse_nil, List.nil_append, String.ofList_toList]

theorem toList_stringText (s : String) : (stringText s).toList = '"' :: (s.toList.flatMap Json.escaped ++ ['"']) := by
  rw [stringText, String.toList_ofList, List.cons_append]

def Ends (rest : List Char) : Prop := ∀ c ∈ rest.head?, c = ',' ∨ c = ']' ∨ c = '\x7d'

theorem gatherWhole_of_lt {s : Nat} {cs : List Char} (h : s * 10 ^ cs.length + ofDigits cs < digitLimit) :
    gatherWhole (s, 0) cs = (s * 10 ^ cs.length + ofDigits cs, 0) := by
  induction cs generalizing s with
  | nil => simp [gatherWhole, ofDigits]
  | cons c cs ih =>
    have hs : s * 10 ^ (c :: cs).length + ofDigits (c :: cs) =
        (s * 10 + (digit? c).getD 0) * 10 ^ cs.length + ofDigits cs := by
      rw [ofDigits_cons, List.length_cons, pow_succ]
      ring
    rw [hs] at h ⊢
    have hl : s * 10 + (digit? c).getD 0 ≤ (s * 10 + (digit? c).getD 0) * 10 ^ cs.length :=
      Nat.le_mul_of_pos_right _ (by positivity)
    rw [gatherWhole, if_pos ⟨rfl, by omega⟩, ih h]

theorem head?_toDigits_ne_zero {n : Nat} (h : 0 < n) : (Nat.toDigits 10 n).head? ≠ some '0' := by
  induction n using Nat.strongRecOn with
  | ind n ih =>
    rw [Nat.toDigits_eq_if (by decide)]
    split
    · next hn =>
      have hd : ∀ m < 10, 0 < m → [Nat.digitChar m].head? ≠ some '0' := by decide
      exact hd n hn h
    · rw [List.head?_append_of_ne_nil _ Nat.toDigits_ne_nil]
      exact ih (n / 10) (by omega) (by omega)

theorem Ends.digits {rest : List Char} (h : Ends rest) : EndsDigits rest := by
  intro c hc
  obtain rfl | rfl | rfl := h c hc <;> decide

theorem readNumber_toDigits (negative : Bool) (start : Char) {n : Nat} {rest : List Char} (h : n < digitLimit)
    (hr : Ends rest) :
    readNumber negative start (Nat.toDigits 10 n ++ rest) = (.number (wholeOf negative n), some rest) := by
  have hds : ∀ c ∈ Nat.toDigits 10 n, isDigit c := fun c ↦ isDigit_of_mem_toDigits
  have hg : gatherWhole (0, 0) (Nat.toDigits 10 n) = (n, 0) := by
    rw [gatherWhole_of_lt (by rwa [ofDigits_toDigits, Nat.zero_mul, Nat.zero_add]), ofDigits_toDigits, Nat.zero_mul,
      Nat.zero_add]
  have hz : ∀ c cs, Nat.toDigits 10 n ≠ '0' :: c :: cs := by
    intro c cs hd
    rcases Nat.eq_zero_or_pos n with rfl | hn
    · rw [Nat.toDigits_zero] at hd
      cases hd
    · exact head?_toDigits_ne_zero hn (congrArg List.head? hd)
  simp only [readNumber, takeWhile_isDigit hds hr.digits, dropWhile_isDigit hds hr.digits, hg]
  split
  · next hd _ => exact absurd hd Nat.toDigits_ne_nil
  · next hd _ => exact absurd hd Nat.toDigits_ne_nil
  · next hd => exact absurd hd (hz _ _)
  · cases rest with
    | nil => rfl
    | cons c more => obtain rfl | rfl | rfl := hr c rfl <;> rfl

def Opens (c : Char) : Prop := isSpace c = false ∧ c ≠ ']' ∧ c ≠ '}' ∧ c ≠ ','

instance (c : Char) : Decidable (Opens c) := inferInstanceAs (Decidable (_ ∧ _))

theorem dropSpace_cons {c : Char} {cs : List Char} (h : isSpace c = false) : dropSpace (c :: cs) = c :: cs := by
  rw [dropSpace, List.dropWhile_cons_of_neg (by simp [h])]

/-- The text of a tree is read as its outline, with any fuel that is more than the text is long. -/
structure Reads (j : Json) : Prop where
  opens : ∃ c cs, j.text.toList = c :: cs ∧ Opens c
  read : ∀ {fuel rest}, j.text.toList.length ≤ fuel → Ends rest →
    readValue (fuel + 1) (j.text.toList ++ rest) = (ofJson j, some rest)

theorem reads_null : Reads .null where
  opens := ⟨'n', _, rfl, by decide⟩
  read _ _ := rfl

theorem reads_boolean (b : Bool) : Reads (.boolean b) where
  opens := by cases b <;> exact ⟨_, _, rfl, by decide⟩
  read _ _ := by cases b <;> rfl

theorem reads_string (s : String) : Reads (.string s) where
  opens := ⟨'"', _, toList_stringText s, by decide⟩
  read {fuel rest} _ _ := by
    have ht : (Json.string s).text.toList ++ rest = '"' :: (s.toList.flatMap Json.escaped ++ '"' :: rest) := by
      rw [Json.text, toList_stringText, List.cons_append, List.append_assoc]
      rfl
    rw [ht, readValue, dropSpace_cons (by decide)]
    simp only [readText_string]
    rfl

theorem isDigit_head_toDigits {n : Nat} {c : Char} {cs : List Char} (h : Nat.toDigits 10 n = c :: cs) : isDigit c :=
  isDigit_of_mem_toDigits (h ▸ List.mem_cons_self)

theorem opens_of_isDigit {c : Char} (h : isDigit c) : Opens c := by
  refine ⟨?_, ?_, ?_, ?_⟩
  · rw [isSpace]
    simp only [Bool.or_eq_false_iff, beq_eq_false_iff_ne]
    refine ⟨⟨⟨?_, ?_⟩, ?_⟩, ?_⟩ <;>
    · rintro rfl
      exact absurd h (by decide)
  all_goals
    rintro rfl
    exact absurd h (by decide)

theorem readValue_digits {c : Char} {cs : List Char} {fuel : Nat} (h : isDigit c) :
    readValue (fuel + 1) (c :: cs) = readNumber false c (c :: cs) := by
  rw [readValue, dropSpace_cons (opens_of_isDigit h).1]
  split
  case h_1 he => cases he
  case h_9 c' cs' _ _ _ _ _ _ _ he =>
    cases he
    rw [if_pos h]
  all_goals
    next he =>
      cases he
      exact absurd h (by decide)

theorem wholeOf_natAbs {n : Int} (hl : -(pow2 63 : Int) ≤ n) : wholeOf (decide (n < 0)) n.natAbs = some (.int n) := by
  rw [wholeOf]
  by_cases hn : n < 0
  · rw [decide_eq_true hn, if_neg (by simp), if_pos ⟨by omega, by omega⟩]
    congr 2
    omega
  · rw [decide_eq_false hn, if_pos (by simp)]
    congr 2
    omega

theorem reads_int {n : Int} (hl : -(pow2 63 : Int) ≤ n) (hh : n < pow2 64) : Reads (.number (.int n)) := by
  have ht : (Json.number (.int n)).text.toList = Decimal.signChars (decide (n < 0)) ++ Nat.toDigits 10 n.natAbs :=
    Decimal.toList_toString n
  have hlt : n.natAbs < digitLimit := by
    have h63 : pow2 63 = 9223372036854775808 := by decide
    have h64 : pow2 64 = 18446744073709551616 := by decide
    have hd : digitLimit = 18446744073709551616 := by decide
    omega
  obtain ⟨c, cs, hd⟩ := List.exists_cons_of_ne_nil (Nat.toDigits_ne_nil (b := 10) (n := n.natAbs))
  have hc := isDigit_head_toDigits hd
  have hw := wholeOf_natAbs hl
  by_cases hn : n < 0
  · rw [decide_eq_true hn] at ht hw
    refine ⟨⟨'-', _, ht, by decide⟩, fun {fuel rest} _ hr ↦ ?_⟩
    rw [ht]
    show readNumber true '-' (Nat.toDigits 10 n.natAbs ++ rest) = _
    rw [readNumber_toDigits true '-' hlt hr, hw]
    rfl
  · rw [decide_eq_false hn] at ht hw
    refine ⟨⟨c, cs, ht.trans hd, opens_of_isDigit hc⟩, fun {fuel rest} _ hr ↦ ?_⟩
    rw [ht]
    show readValue _ (Nat.toDigits 10 n.natAbs ++ rest) = _
    rw [hd, List.cons_append, readValue_digits hc, ← List.cons_append, ← hd, readNumber_toDigits false c hlt hr, hw]
    rfl

theorem readItems_comma {c : Char} (h : Opens c) (fuel : Nat) (cs : List Char) :
    readItems (fuel + 1) false (',' :: c :: cs) = readItems (fuel + 1) true (c :: cs) := by
  rw [readItems, readItems, dropSpace_cons (by decide), dropSpace_cons h.1]
  simp only [if_neg h.2.1]
  rw [if_neg (by decide), if_neg (by decide), if_neg (by simp [dropSpace_cons h.1, h.2.1]), if_neg (by decide),
    if_neg (by simp), if_neg (by simp), if_pos trivial]

theorem readItems_of_item {x : Json} (hx : Reads x) {fuel : Nat} {rest : List Char} (hf : x.text.toList.length ≤ fuel)
    (hr : Ends rest) : readItems (fuel + 2) true (x.text.toList ++ rest) =
      (.item (ofJson x) (readItems (fuel + 1) false rest).1, (readItems (fuel + 1) false rest).2) := by
  obtain ⟨c, cs, hc, ho⟩ := hx.opens
  have hv := hx.read hf hr
  rw [hc, List.cons_append] at hv ⊢
  rw [readItems, dropSpace_cons ho.1]
  simp only [if_neg ho.2.1]
  rw [if_neg (by simp), if_neg (by simp), if_pos trivial, hv]

theorem readItems_text {xs : List Json} (hne : xs ≠ []) (h : ∀ x ∈ xs, Reads x) {fuel : Nat}
    (hf : (textOfItems xs).toList.length < fuel) (rest : List Char) :
    readItems (fuel + 1) true ((textOfItems xs).toList ++ ']' :: rest) = (itemsOfJson xs, some rest) := by
  induction xs generalizing fuel with
  | nil => exact absurd rfl hne
  | cons x xs ih =>
    obtain ⟨hx, hxs⟩ := List.forall_mem_cons.1 h
    obtain ⟨fuel, rfl⟩ := Nat.exists_eq_add_one_of_ne_zero (Nat.ne_of_gt (Nat.zero_lt_of_lt hf))
    rw [toList_textOfItems_cons] at hf ⊢
    rw [List.length_append] at hf
    cases xs with
    | nil =>
      simp only [List.isEmpty_nil, if_true, List.append_nil]
      rw [readItems_of_item hx (by omega) (by simp [Ends])]
      rfl
    | cons y ys =>
      obtain ⟨c, cs, hc, ho⟩ := (hxs y List.mem_cons_self).opens
      have ht : ∃ ds, (textOfItems (y :: ys)).toList = c :: ds := by
        rw [toList_textOfItems_cons, hc]
        exact ⟨_, rfl⟩
      obtain ⟨ds, hd⟩ := ht
      rw [if_neg (by simp), List.length_cons] at hf
      have hl : (textOfItems (y :: ys)).toList.length < fuel := by omega
      have hi := ih (List.cons_ne_nil y ys) hxs hl
      rw [hd, List.cons_append] at hi
      rw [if_neg (by simp), List.append_assoc, readItems_of_item hx (by omega) (by simp [Ends]), hd, List.cons_append,
        List.cons_append, readItems_comma ho, hi]
      rfl

theorem reads_array {xs : List Json} (h : ∀ x ∈ xs, Reads x) : Reads (.array xs) := by
  have ht : (Json.array xs).text.toList = '[' :: ((textOfItems xs).toList ++ [']']) := by
    simp [Json.text]
  refine ⟨⟨'[', _, ht, by decide⟩, fun {fuel rest} hf hr ↦ ?_⟩
  rw [ht, List.length_cons, List.length_append] at hf
  obtain ⟨fuel, rfl⟩ : ∃ k, fuel = k + 1 := ⟨fuel - 1, by omega⟩
  rw [ht, List.cons_append, List.append_assoc, readValue, dropSpace_cons (by decide)]
  cases xs with
  | nil => rfl
  | cons x xs =>
    have hl : (textOfItems (x :: xs)).toList.length < fuel := by
      simp only [List.length_singleton] at hf
      omega
    have hi := readItems_text (List.cons_ne_nil x xs) h hl rest
    simp only [List.singleton_append, hi]
    rfl

theorem readMembers_comma (fuel : Nat) (cs : List Char) :
    readMembers (fuel + 1) false (',' :: '"' :: cs) = readMembers (fuel + 1) true ('"' :: cs) := by
  rw [readMembers, readMembers, dropSpace_cons (by decide), dropSpace_cons (by decide)]
  rfl

theorem readMembers_of_member (k : String) {x : Json} (hx : Reads x) {fuel : Nat} {rest : List Char}
    (hf : x.text.toList.length ≤ fuel) (hr : Ends rest) :
    readMembers (fuel + 2) true ((stringText k).toList ++ ':' :: (x.text.toList ++ rest)) =
      (.member (.ok k) (ofJson x) (readMembers (fuel + 1) false rest).1, (readMembers (fuel + 1) false rest).2) := by
  have hs : (stringText k).toList ++ ':' :: (x.text.toList ++ rest) =
      '"' :: (k.toList.flatMap Json.escaped ++ '"' :: ':' :: (x.text.toList ++ rest)) := by
    rw [toList_stringText, List.cons_append, List.append_assoc]
    rfl
  have hd : ∀ cs, dropSpace (':' :: cs) = ':' :: cs := fun cs ↦ dropSpace_cons (by decide)
  rw [hs, readMembers, dropSpace_cons (by decide)]
  simp only [if_neg (show ('"' : Char) ≠ '\x7d' by decide)]
  rw [if_neg (by simp), if_pos trivial]
  simp only [readText_string, hd, hx.read hf hr]

theorem readMembers_text {ms : List (String × Json)} (hne : ms ≠ []) (h : ∀ e ∈ ms, Reads e.2) {fuel : Nat}
    (hf : (textOfMembers ms).toList.length < fuel) (rest : List Char) :
    readMembers (fuel + 1) true ((textOfMembers ms).toList ++ '\x7d' :: rest) = (membersOfJson ms, some rest) := by
  induction ms generalizing fuel with
  | nil => exact absurd rfl hne
  | cons e ms ih =>
    obtain ⟨k, x⟩ := e
    obtain ⟨hx, hms⟩ : Reads x ∧ ∀ e ∈ ms, Reads e.2 := List.forall_mem_cons.1 h
    obtain ⟨fuel, rfl⟩ := Nat.exists_eq_add_one_of_ne_zero (Nat.ne_of_gt (Nat.zero_lt_of_lt hf))
    rw [toList_textOfMembers_cons] at hf ⊢
    rw [List.length_append, List.length_cons, List.length_append] at hf
    rw [List.append_assoc, List.cons_append, List.append_assoc]
    cases ms with
    | nil =>
      simp only [List.isEmpty_nil, if_true, List.nil_append]
      rw [readMembers_of_member k hx (by omega) (by simp [Ends])]
      rfl
    | cons d ms =>
      obtain ⟨ds, hd⟩ : ∃ ds, (textOfMembers (d :: ms)).toList = '"' :: ds := by
        rw [toList_textOfMembers_cons, toList_stringText]
        exact ⟨_, rfl⟩
      rw [if_neg (by simp), List.length_cons] at hf
      have hl : (textOfMembers (d :: ms)).toList.length < fuel := by omega
      have hi := ih (List.cons_ne_nil d ms) hms hl
      rw [hd, List.cons_append] at hi
      rw [if_neg (by simp), readMembers_of_member k hx (by omega) (by simp [Ends]), hd, List.cons_append,
        List.cons_append, readMembers_comma, hi]
      rfl

theorem reads_object {ms : List (String × Json)} (h : ∀ e ∈ ms, Reads e.2) : Reads (.object ms) := by
  have ht : (Json.object ms).text.toList = '\x7b' :: ((textOfMembers ms).toList ++ ['\x7d']) := by
    simp [Json.text]
  refine ⟨⟨'\x7b', _, ht, by decide⟩, fun {fuel rest} hf hr ↦ ?_⟩
  rw [ht, List.length_cons, List.length_append] at hf
  obtain ⟨fuel, rfl⟩ : ∃ k, fuel = k + 1 := ⟨fuel - 1, by omega⟩
  rw [ht, List.cons_append, List.append_assoc, readValue, dropSpace_cons (by decide)]
  cases ms with
  | nil => rfl
  | cons e ms =>
    have hl : (textOfMembers (e :: ms)).toList.length < fuel := by
      simp only [List.length_singleton] at hf
      omega
    have hi := readMembers_text (List.cons_ne_nil e ms) h hl rest
    simp only [List.singleton_append, hi]
    rfl

theorem reads_of_whole {j : Json} (h : j.Whole) : Reads j := by
  induction h with
  | null => exact reads_null
  | boolean b => exact reads_boolean b
  | int hl hh => exact reads_int hl hh
  | string s => exact reads_string s
  | array _ ih => exact reads_array ih
  | object _ ih => exact reads_object ih

theorem read_text {j : Json} (h : j.Whole) : read j.text = (ofJson j, true) := by
  have hl : j.text.toList.length ≤ 2 * j.text.toList.length + 2 := by omega
  have he : Ends [] := by simp [Ends]
  have hr := (reads_of_whole h).read hl he
  rw [List.append_nil] at hr
  rw [read]
  simp only [hr]
  rfl

end Outline

theorem Reader.readText_text {α : Type} (r : Reader α) {j : Json} (h : j.Whole) :
    r.readText j.text = r Outline.maxDepth (Outline.ofJson j) := by
  rw [readText, Outline.read_text h]
  exact bind_pure _

theorem Reader.exists_of_readText {α : Type} {r : Reader α} {s : String} {a : α} (h : r.readText s = .ok a) :
    ∃ o, r Outline.maxDepth o = .ok a := by
  rw [readText] at h
  generalize Outline.read s = x at h
  obtain ⟨o, clean⟩ := x
  obtain ⟨b, hb, h⟩ := Except.bind_eq_ok_iff.1 h
  split at h
  · cases h
    exact ⟨o, hb⟩
  · cases h

end Upsert
