import Mathlib.Data.List.Flatten
import Mathlib.Data.List.Perm.Subperm
import Upsert.Proofs.Literal.Map

namespace Upsert.MapText

open Literal
open Text (doubled)

/-- The text without some of its characters, but with all its quote marks. -/
structure Thinned (less more : List Char) : Prop where
  sublist : less.Sublist more
  quotes : less.count '"' = more.count '"'

namespace Thinned

variable {l₁ l₂ l₃ : List Char}

theorem refl (l : List Char) : Thinned l l := ⟨List.Sublist.refl l, rfl⟩

theorem trans (h : Thinned l₁ l₂) (h' : Thinned l₂ l₃) : Thinned l₁ l₃ :=
  ⟨h.sublist.trans h'.sublist, h.quotes.trans h'.quotes⟩

theorem append_left (h : Thinned l₁ l₂) (front : List Char) : Thinned (front ++ l₁) (front ++ l₂) :=
  ⟨h.sublist.append_left front, by rw [List.count_append, List.count_append, h.quotes]⟩

theorem append_right (h : Thinned l₁ l₂) (back : List Char) : Thinned (l₁ ++ back) (l₂ ++ back) :=
  ⟨h.sublist.append_right back, by rw [List.count_append, List.count_append, h.quotes]⟩

theorem additive : Scanner.Additive Thinned := ⟨trans, append_left, append_right⟩

theorem concat {c : Char} (h : c ≠ '"') (l : List Char) : Thinned l (l ++ [c]) :=
  ⟨List.sublist_append_left l [c], by rw [List.count_append, List.count_cons_of_ne h, List.count_nil, Nat.add_zero]⟩

end Thinned

/-- A word as it stands in a text, with no more backslashes than it needs. -/
def Word.written (w : Word) : List Char := if w.quoted then '"' :: escaped w.cs ++ ['"'] else doubled '\\' w.cs

def writtenPair (p : Pair) : List Char := ',' :: p.1.written ++ '=' :: '>' :: p.2.written

def Place.held : Place → List Char
  | .key => [',']
  | .value k => ',' :: k.written ++ ['=', '>']

def State.held : State → List Char
  | .gap p => p.held
  | .quoted p cs false => p.held ++ '"' :: escaped cs
  | .quoted p cs true => p.held ++ '"' :: escaped cs ++ ['\\']
  | .bare p cs => p.held ++ doubled '\\' cs
  | .bareSlash p cs => p.held ++ doubled '\\' cs ++ ['\\']
  | .sign k => ',' :: k.written
  | .arrow k => ',' :: k.written ++ ['=']
  | .behind => []

section

variable {s u : State} {c : Char} {cs : List Char} {pairs : List Pair}

theorem thinned_escaped (c : Char) (cs : List Char) : Thinned (escaped (cs ++ [c])) (escaped cs ++ ['\\'] ++ [c]) := by
  refine ⟨escaped_concat_sublist c cs, ?_⟩
  have hq : '"' ≠ '\\' := by decide
  simp [count_escaped_of_ne hq]

theorem thinned_doubled (c : Char) (cs : List Char) :
    Thinned (doubled '\\' (cs ++ [c])) (doubled '\\' cs ++ ['\\'] ++ [c]) := by
  rw [Text.doubled_append, List.append_assoc]
  apply Thinned.append_left
  by_cases hc : c = '\\'
  · subst hc
    exact .refl _
  · rw [Text.doubled_cons_of_ne hc]
    exact ⟨List.sublist_cons_self _ _, rfl⟩

theorem held_quoted_concat (p : Place) (h : ¬(c = '"' ∨ c = '\\')) (cs : List Char) :
    (State.quoted p (cs ++ [c]) false).held = (State.quoted p cs false).held ++ [c] := by
  rw [State.held, State.held, escaped_concat_of_plain h, List.append_assoc, List.cons_append]

theorem held_bare_concat (p : Place) (h : c ≠ '\\') (cs : List Char) :
    (State.bare p (cs ++ [c])).held = (State.bare p cs).held ++ [c] := by
  rw [State.held, State.held, Text.doubled_append, Text.doubled_cons_of_ne h, List.append_assoc]
  rfl

theorem held_bare_nil (p : Place) : (State.bare p []).held = p.held := List.append_nil p.held

theorem held_finish {p : Place} {w : Word} (h : p.finish w = (pairs, u)) :
    pairs.flatMap writtenPair ++ u.held = p.held ++ w.written := by
  cases p with
  | key =>
    cases h
    rfl
  | value k =>
    cases h
    simp [writtenPair, State.held, Place.held]

theorem held_stop {p : Place} {w : Word} (h : p.stop w c = some (pairs, u)) :
    pairs.flatMap writtenPair ++ u.held = p.held ++ w.written ++ [c] := by
  cases p with
  | key =>
    simp only [Place.stop] at h
    split_ifs at h with hc
    cases h
    rw [hc]
    rfl
  | value k =>
    simp only [Place.stop] at h
    split_ifs at h with hc
    cases h
    simp [hc, writtenPair, State.held, Place.held]

theorem ne_quote_of_isSpace (h : isSpace c) : c ≠ '"' := fun hc ↦ plain_of_isSpace h (.inl hc)

/-- A character adds no more than itself to what has been read, and no quote mark is lost. -/
theorem thinned_of_step (h : s.step c = some (pairs, u)) :
    Thinned (pairs.flatMap writtenPair ++ u.held) (s.held ++ [c]) := by
  cases s with
  | gap p =>
    simp only [State.step] at h
    split_ifs at h with hq hs hb ho <;> cases h
    · rw [hq]
      exact .refl _
    · exact .concat (ne_quote_of_isSpace hs) _
    · have hp : (State.bareSlash p []).held = p.held ++ ['\\'] := congrArg (· ++ ['\\']) (held_bare_nil p)
      rw [hb, hp]
      exact .refl _
    · have hp : (State.bare p [c]).held = p.held ++ [c] :=
        (held_bare_concat p hb []).trans (congrArg (· ++ [c]) (held_bare_nil p))
      rw [hp]
      exact .refl _
  | quoted p cs slash =>
    cases slash with
    | true =>
      cases h
      have hp := (thinned_escaped c cs).append_left (p.held ++ ['"'])
      simpa [State.held] using hp
    | false =>
      simp only [State.step] at h
      split_ifs at h with hb hq
      · cases h
        rw [hb]
        exact .refl _
      · rw [held_finish (Option.some.inj h), hq, State.held, List.append_assoc]
        exact .refl _
      · cases h
        rw [held_quoted_concat p (not_or.2 ⟨hq, hb⟩)]
        exact .refl _
  | bare p cs =>
    simp only [State.step] at h
    split_ifs at h with hb hs
    · cases h
      rw [hb]
      exact .refl _
    · rw [held_finish (Option.some.inj h)]
      exact .concat (ne_quote_of_isSpace hs) _
    · cases ht : p.stop ⟨cs, false⟩ c with
      | none =>
        rw [ht] at h
        cases h
        rw [held_bare_concat p hb]
        exact .refl _
      | some ended =>
        rw [ht] at h
        cases h
        exact held_stop ht ▸ .refl _
  | bareSlash p cs =>
    cases h
    have hp := (thinned_doubled c cs).append_left p.held
    simpa [State.held] using hp
  | sign k =>
    simp only [State.step] at h
    split_ifs at h with hs hc <;> cases h
    · exact .concat (ne_quote_of_isSpace hs) _
    · rw [hc]
      exact .refl _
  | arrow k =>
    simp only [State.step] at h
    split_ifs at h with hc
    cases h
    have hp : (Place.value k).held = (State.arrow k).held ++ ['>'] := by simp [Place.held, State.held]
    rw [hc, ← hp]
    exact .refl _
  | behind =>
    simp only [State.step] at h
    split_ifs at h with hs hc <;> cases h
    · exact .concat (ne_quote_of_isSpace hs) _
    · rw [hc]
      exact .refl _

theorem thinned_of_flush (h : s.flush = some pairs) : Thinned (pairs.flatMap writtenPair) s.held := by
  cases s with
  | gap p =>
    cases p with
    | key =>
      cases h
      exact .concat (by decide) []
    | value k => cases h
  | bare p cs =>
    cases p with
    | key => cases h
    | value k =>
      cases h
      have hf : (Place.value k).finish ⟨cs, false⟩ = ([(k, ⟨cs, false⟩)], .behind) := rfl
      have hk : [(k, ⟨cs, false⟩)].flatMap writtenPair = (State.bare (.value k) cs).held :=
        (List.append_nil _).symm.trans (held_finish hf)
      rw [hk]
      exact .refl _
  | behind =>
    cases h
    exact .refl []
  | _ => cases h

theorem relates : scanner.Relates Thinned writtenPair State.held := ⟨thinned_of_step, thinned_of_flush⟩

theorem exists_of_read? {entries : List (String × Option String)} (h : read? cs = some entries) :
    ∃ pairs : List Pair, entries = pairs.map entry ∧ Thinned (pairs.flatMap writtenPair) (',' :: cs) := by
  obtain ⟨pairs, hp, rfl⟩ := Option.map_eq_some_iff.1 h
  exact ⟨pairs, rfl, relates.of_run Thinned.additive hp⟩

end

def chars (e : String × Option String) : List Char := e.1.toList ++ e.2.elim [] String.toList

theorem mem_chars {c : Char} {e : String × Option String} : c ∈ chars e ↔ ∃ s ∈ e.1 :: e.2.toList, c ∈ s.toList := by
  obtain ⟨k, v⟩ := e
  cases v <;> simp [chars]

section

variable {c : Char}

theorem count_written_of_ne (hb : c ≠ '\\') (hq : c ≠ '"') (w : Word) : w.written.count c = w.cs.count c := by
  rw [Word.written]
  split_ifs
  · simp [count_escaped_of_ne hb, List.count_cons_of_ne hq.symm]
  · rw [Text.count_doubled, if_neg hb, Nat.one_mul]

theorem two_mul_count_le_written (w : Word) : 2 * w.cs.count '\\' ≤ w.written.count '\\' := by
  rw [Word.written]
  split_ifs
  · have he := count_backslash_escaped w.cs
    simp only [List.count_append, List.count_cons, List.count_nil]
    omega
  · apply Nat.le_of_eq
    rw [Text.count_doubled, if_pos rfl]

theorem count_quote_written (w : Word) : w.written.count '"' = w.cs.count '"' + if w.quoted then 2 else 0 := by
  have hn : '"' ≠ '\\' := by decide
  rw [Word.written]
  split_ifs
  · simp [count_escaped_of_ne hn]
  · rw [Text.count_doubled, if_neg hn, Nat.one_mul, Nat.add_zero]

theorem count_quotedWord (s : String) : (quotedWord s).count '"' = s.toList.count '"' + 2 := by
  have hn : '"' ≠ '\\' := by decide
  simp [quotedWord, count_escaped_of_ne hn]

theorem count_quote_of_text (w : Word) : w.written.count '"' ≤ (quotedWord w.text).count '"' ∧
    (w.written.count '"' = (quotedWord w.text).count '"' → w.written.count '\\' = 0 → w.cs.count '"' = 0) := by
  rw [count_quote_written, count_quotedWord, Word.text, String.toList_ofList]
  cases hq : w.quoted with
  | false => simp
  | true =>
    refine ⟨Nat.le_refl _, fun _ hb ↦ ?_⟩
    have he := count_backslash_escaped w.cs
    simp only [Word.written, hq, if_true, List.count_append, List.count_cons, List.count_nil] at hb
    omega

theorem count_quote_of_isNullWord {cs : List Char} (h : isNullWord cs) : cs.count '"' = 0 := by
  rw [List.count_eq_zero]
  intro hq
  have hl : '"'.toLower ∈ cs.map Char.toLower := List.mem_map_of_mem hq
  rw [beq_iff_eq.1 h] at hl
  exact absurd hl (by decide)

theorem count_quote_of_value (w : Word) : w.written.count '"' ≤ (writtenValue w.value).count '"' ∧
    (w.written.count '"' = (writtenValue w.value).count '"' → w.written.count '\\' = 0 →
      (w.value.elim [] String.toList).count '"' = 0) := by
  rw [Word.value]
  split_ifs with hn
  · obtain ⟨hb, hw⟩ := Bool.and_eq_true_iff.1 hn
    have hq : w.quoted = false := by simpa using hb
    have hz : w.written.count '"' = 0 := by
      rw [count_quote_written, count_quote_of_isNullWord hw, hq]
      rfl
    exact ⟨hz ▸ Nat.zero_le _, fun _ _ ↦ rfl⟩
  · have ht := count_quote_of_text w
    rw [Option.elim_some, Word.text, String.toList_ofList]
    exact ht

end

theorem count_value_le (c : Char) (w : Word) : (w.value.elim [] String.toList).count c ≤ w.cs.count c := by
  rw [Word.value]
  split_ifs
  · exact Nat.zero_le _
  · apply Nat.le_of_eq
    rw [Option.elim_some, Word.text, String.toList_ofList]

theorem count_chars (c : Char) (p : Pair) :
    (chars (entry p)).count c = p.1.cs.count c + (p.2.value.elim [] String.toList).count c := by
  simp [chars, entry, Word.text]

theorem count_chars_le (c : Char) (p : Pair) : (chars (entry p)).count c ≤ p.1.cs.count c + p.2.cs.count c :=
  count_chars c p ▸ Nat.add_le_add_left (count_value_le c p.2) _

theorem count_writtenPair (c : Char) (p : Pair) : (writtenPair p).count c =
    p.1.written.count c + p.2.written.count c + [',', '=', '>'].count c := by
  simp only [writtenPair, List.cons_append, List.count_append, List.count_cons, List.count_nil]
  omega

theorem count_quote_writtenEntry (p : Pair) : (writtenEntry (entry p)).count '"' =
    (quotedWord p.1.text).count '"' + (writtenValue p.2.value).count '"' := by
  simp [writtenEntry, entry]

theorem count_le_writtenPairs (pairs : List Pair) :
    ((pairs.map entry).flatMap chars).count '\'' ≤ (pairs.flatMap writtenPair).count '\'' ∧
    2 * ((pairs.map entry).flatMap chars).count '\\' ≤ (pairs.flatMap writtenPair).count '\\' ∧
    ((pairs.map entry).flatMap chars).count ',' + pairs.length ≤ (pairs.flatMap writtenPair).count ',' := by
  induction pairs with
  | nil => exact ⟨Nat.le_refl 0, Nat.le_refl 0, Nat.le_refl 0⟩
  | cons p pairs ih =>
    obtain ⟨ha, hb, hc⟩ := ih
    rw [List.flatMap_cons, List.map_cons, List.flatMap_cons]
    simp only [List.count_append, count_writtenPair, List.length_cons]
    refine ⟨?_, ?_, ?_⟩
    · have hp := count_chars_le '\'' p
      have hk := count_written_of_ne (c := '\'') (by decide) (by decide) p.1
      have hv := count_written_of_ne (c := '\'') (by decide) (by decide) p.2
      omega
    · have hp := count_chars_le '\\' p
      have hk := two_mul_count_le_written p.1
      have hv := two_mul_count_le_written p.2
      omega
    · have hp := count_chars_le ',' p
      have hk := count_written_of_ne (c := ',') (by decide) (by decide) p.1
      have hv := count_written_of_ne (c := ',') (by decide) (by decide) p.2
      have ho : [',', '=', '>'].count ',' = 1 := by decide
      omega

theorem count_quote_writtenPairs_le (pairs : List Pair) :
    (pairs.flatMap writtenPair).count '"' ≤ ((pairs.map entry).flatMap writtenEntry).count '"' := by
  induction pairs with
  | nil => exact Nat.le_refl 0
  | cons p pairs ih =>
    have hk := (count_quote_of_text p.1).1
    have hv := (count_quote_of_value p.2).1
    have ho : [',', '=', '>'].count '"' = 0 := by decide
    rw [List.flatMap_cons, List.map_cons, List.flatMap_cons, List.count_append, List.count_append, count_writtenPair,
      count_quote_writtenEntry]
    omega

theorem count_quote_eq_zero {pairs : List Pair} (hb : (pairs.flatMap writtenPair).count '\\' = 0)
    (h : (pairs.flatMap writtenPair).count '"' = ((pairs.map entry).flatMap writtenEntry).count '"') :
    ((pairs.map entry).flatMap chars).count '"' = 0 := by
  induction pairs with
  | nil => rfl
  | cons p pairs ih =>
    have hr := count_quote_writtenPairs_le pairs
    have hk := count_quote_of_text p.1
    have hv := count_quote_of_value p.2
    have ho : [',', '=', '>'].count '"' = 0 := by decide
    rw [List.flatMap_cons, List.count_append, count_writtenPair] at hb h
    rw [List.map_cons, List.flatMap_cons, List.count_append, count_quote_writtenEntry] at h
    have hp : (chars (entry p)).count '"' = 0 := by
      have hz := hk.2 (by omega) (by omega)
      have hz' := hv.2 (by omega) (by omega)
      rw [count_chars, hz, hz']
    rw [List.map_cons, List.flatMap_cons, List.count_append, hp, ih (by omega) (by omega)]

section

variable {cs : List Char} {entries : List (String × Option String)} {m : Dictionary (Option String)}

theorem Yields.subperm (h : Yields entries m) : m.entries.Subperm entries :=
  List.subperm_of_subset m.ascending.nodup h.taken

theorem Yields.count_le (h : Yields entries m) (c : Char) :
    (m.entries.flatMap chars).count c ≤ (entries.flatMap chars).count c := by
  obtain ⟨taken, hp, hs⟩ := h.subperm
  rw [← (hp.flatMap_right chars).count_eq c]
  exact (hs.flatMap chars).count_le c

theorem count_apostrophe_le (h : read? cs = some entries) (hm : Yields entries m) :
    (m.entries.flatMap chars).count '\'' ≤ cs.count '\'' := by
  obtain ⟨pairs, rfl, ht⟩ := exists_of_read? h
  have hk : (pairs.flatMap writtenPair).count '\'' ≤ cs.count '\'' := ht.sublist.count_le '\''
  have hm := hm.count_le '\''
  have hc := (count_le_writtenPairs pairs).1
  omega

/-- A text with no more backslashes and commas than a map unescaped, and with two quote marks around each of its words,
stands for that map only if nothing in the map needs a backslash. -/
theorem free_of_read? (h : read? cs = some entries) (hm : Yields entries m)
    (hb : cs.count '\\' = (m.entries.flatMap chars).count '\\')
    (hc : cs.count ',' = (m.entries.flatMap chars).count ',' + (m.entries.length - 1))
    (hq : cs.count '"' = (m.entries.flatMap writtenEntry).count '"') :
    (m.entries.flatMap chars).count '\\' = 0 ∧ (m.entries.flatMap chars).count '"' = 0 := by
  cases hn : m.entries with
  | nil => exact ⟨rfl, rfl⟩
  | cons e rest =>
    rw [← hn]
    have hl : 0 < m.entries.length := hn ▸ Nat.succ_pos _
    obtain ⟨pairs, rfl, ht⟩ := exists_of_read? h
    obtain ⟨-, hkb, hkc⟩ := count_le_writtenPairs pairs
    have hsb := ht.sublist.count_le '\\'
    have hsc := ht.sublist.count_le ','
    have hsq := ht.quotes
    rw [List.count_cons_of_ne (by decide)] at hsb hsq
    rw [List.count_cons_self] at hsc
    have hmb := hm.count_le '\\'
    have hmc := hm.count_le ','
    -- The commas leave room for no entries but those of the map.
    have hp : m.entries.Perm (pairs.map entry) := by
      apply hm.subperm.perm_of_length_le
      rw [List.length_map]
      omega
    have hz : (m.entries.flatMap chars).count '\\' = 0 := by omega
    refine ⟨hz, ?_⟩
    rw [(hp.flatMap_right chars).count_eq]
    apply count_quote_eq_zero (by omega)
    rw [hsq, hq, (hp.flatMap_right writtenEntry).count_eq]

end

end Upsert.MapText
