import Upsert.Proofs.Literal.Array
import Upsert.Proofs.Literal.Thinned
import Upsert.Proofs.Sql.Literal
import Upsert.Value.Text

namespace Upsert.Value

open Literal
open MapText (chars writtenEntry)

/-- A text with its quote marks, but not its backslashes, behind backslashes. -/
def marked (cs : List Char) : List Char := cs.flatMap fun c ↦ if c = '"' then ['\\', '"'] else [c]

def shownItem (s : String) : List Char := '"' :: marked s.toList ++ ['"']

def shownItems (items : List String) : List Char :=
  '\x7b' :: [',', ' '].intercalate (items.map shownItem) ++ ['\x7d']

def shownWord (s : String) : List Char := '"' :: s.toList ++ ['"']

def shownEntry (e : String × Option String) : List Char :=
  shownWord e.1 ++ '=' :: '>' :: e.2.elim ['N', 'U', 'L', 'L'] shownWord

def shownEntries (entries : List (String × Option String)) : List Char :=
  [',', ' '].intercalate (entries.map shownEntry)

theorem toList_text_strings (items : List String) :
    (strings items).text.toList = '\'' :: shownItems items ++ ['\''] := by
  have hi (s : String) : (arrayItemText s).toList = shownItem s := by
    simp [arrayItemText, shownItem, marked]
  simp [text, shownItems, String.toList_intercalate, Function.comp_def, hi]

theorem toList_text_hstore (m : Hstore) : (hstore m).text.toList = '\'' :: shownEntries m.entries ++ ['\''] := by
  have he (e : String × Option String) : (entryText e).toList = shownEntry e := by
    obtain ⟨k, v⟩ := e
    cases v <;> simp [entryText, shownEntry, shownWord]
  simp [text, shownEntries, String.toList_intercalate, Function.comp_def, he]

/-- The content of a literal, taken as a text, as the text of a document, as an array or as a map, is the value. -/
def IsContent (content : String) : Value → Prop
  | .string s => content = s
  | .json j => content = j.text
  | .strings items => ArrayText.read? content.toList = some (items.map some)
  | .hstore m => ∃ entries, MapText.read? content.toList = some entries ∧ ∀ m', MapText.Yields entries m' ↔ m' = m
  | _ => False

/-- The value is shown as one literal, and that stands for the value. -/
def IsShown (v : Value) : Prop := ∃ content, Sql.IsLiteral v.text content ∧ v.IsContent content

def Lacks (marks : List Char) (s : String) : Prop := ∀ c ∈ marks, c ∉ s.toList

instance (marks : List Char) (s : String) : Decidable (Lacks marks s) := inferInstanceAs (Decidable (∀ c ∈ marks, _))

theorem isShown_quotedLiteral {v : Value} {content : String} (h : v.text = Text.quotedLiteral content)
    (hc : v.IsContent content) : v.IsShown := by
  refine ⟨content, (Sql.isLiteral_iff ?_).2 rfl, hc⟩
  rw [h, Text.quotedLiteral, Text.quoted, String.toList_ofList]

section

variable {c : Char} {items : List String}

theorem marked_cons_quote (cs : List Char) : marked ('"' :: cs) = '\\' :: '"' :: marked cs := by
  rw [marked, List.flatMap_cons, if_pos rfl]
  rfl

theorem marked_cons_of_ne (h : c ≠ '"') (cs : List Char) : marked (c :: cs) = c :: marked cs := by
  rw [marked, List.flatMap_cons, if_neg h]
  rfl

theorem count_marked_of_ne (h : c ≠ '\\') (cs : List Char) : (marked cs).count c = cs.count c := by
  induction cs with
  | nil => rfl
  | cons d cs ih =>
    by_cases hd : d = '"'
    · rw [hd, marked_cons_quote, List.count_cons_of_ne h.symm, List.count_cons, List.count_cons, ih]
    · rw [marked_cons_of_ne hd, List.count_cons, List.count_cons, ih]

theorem count_backslash_marked (cs : List Char) : (marked cs).count '\\' = cs.count '\\' + cs.count '"' := by
  induction cs with
  | nil => rfl
  | cons d cs ih =>
    by_cases hd : d = '"'
    · have hn : '"' ≠ '\\' := by decide
      rw [hd, marked_cons_quote, List.count_cons_self, List.count_cons_of_ne hn, List.count_cons_of_ne hn,
        List.count_cons_self, ih]
      omega
    · rw [marked_cons_of_ne hd, List.count_cons, List.count_cons, List.count_cons_of_ne hd, ih]
      omega

theorem marked_of_notMem {cs : List Char} (h : '\\' ∉ cs) : marked cs = escaped cs := by
  induction cs with
  | nil => rfl
  | cons c cs ih =>
    obtain ⟨hc, hcs⟩ := not_or.1 (mt List.mem_cons.2 h)
    by_cases hq : c = '"'
    · rw [hq, marked_cons_quote, escaped_cons_of_mark (.inl rfl), ih hcs]
    · rw [marked_cons_of_ne hq, escaped_cons_of_plain (not_or.2 ⟨hq, Ne.symm hc⟩), ih hcs]

theorem count_shownItems (h : c ∉ ['\x7b', '\x7d', ',', ' ', '"']) (items : List String) :
    (shownItems items).count c = (marked (items.flatMap String.toList)).count c := by
  simp only [List.mem_cons, List.not_mem_nil, or_false, not_or] at h
  obtain ⟨hl, hr, hc, hs, hq⟩ := h
  have hi (s : String) : (shownItem s).count c = (marked s.toList).count c := by
    simp [shownItem, List.count_cons_of_ne (Ne.symm hq)]
  have hm : marked (items.flatMap String.toList) = items.flatMap fun s ↦ marked s.toList := List.flatMap_assoc
  rw [hm, ← count_flatMap_congr fun s _ ↦ hi s]
  simp [shownItems, count_intercalate, List.count_cons_of_ne (Ne.symm hl), List.count_cons_of_ne (Ne.symm hr),
    List.count_cons_of_ne (Ne.symm hc), List.count_cons_of_ne (Ne.symm hs), List.flatMap_def]

theorem lacks_of_isShown_strings (h : (strings items).IsShown) : ∀ s ∈ items, Lacks ['\'', '\\'] s := by
  obtain ⟨content, hl, hc⟩ := h
  have hd := (Sql.isLiteral_iff (toList_text_strings items)).1 hl
  have hk : (items.map some).flatMap ArrayText.kept = escaped (items.flatMap String.toList) := by
    rw [escaped_flatMap, List.flatMap_map]
    rfl
  have hr : (escaped (items.flatMap String.toList)).Sublist content.toList := hk ▸ ArrayText.sublist_of_read? hc
  -- The text holds as many single quotes as the items, but twice those of its content, which holds as many as they do.
  have hqz : (items.flatMap String.toList).count '\'' = 0 := by
    have hs := count_shownItems (c := '\'') (by decide) items
    have hq := hr.count_le '\''
    rw [hd, Text.count_doubled, if_pos rfl, count_marked_of_ne (by decide)] at hs
    rw [count_escaped_of_ne (by decide)] at hq
    omega
  have hbz : (items.flatMap String.toList).count '\\' = 0 := by
    have hs := count_shownItems (c := '\\') (by decide) items
    have hb := hr.count_le '\\'
    rw [hd, Text.count_doubled, if_neg (by decide), count_backslash_marked] at hs
    rw [count_backslash_escaped] at hb
    omega
  intro s hs c hc hcs
  have hm : c ∈ items.flatMap String.toList := List.mem_flatMap.2 ⟨s, hs, hcs⟩
  simp only [List.mem_cons, List.not_mem_nil, or_false] at hc
  obtain rfl | rfl := hc
  · exact List.count_eq_zero.1 hqz hm
  · exact List.count_eq_zero.1 hbz hm

theorem isShown_strings_of_lacks (h : ∀ s ∈ items, Lacks ['\'', '\\'] s) : (strings items).IsShown := by
  have hi : ∀ s ∈ items, shownItem s = ArrayText.quotedItem s := by
    intro s hs
    rw [shownItem, marked_of_notMem (h s hs '\\' (by decide)), ArrayText.quotedItem]
  have hw : shownItems items = ArrayText.written items := by
    rw [shownItems, List.map_congr_left hi, ArrayText.written]
  have hq : '\'' ∉ shownItems items := by
    rw [← List.count_eq_zero, count_shownItems (by decide), count_marked_of_ne (by decide), List.count_eq_zero]
    intro hm
    obtain ⟨s, hs, hc⟩ := List.mem_flatMap.1 hm
    exact h s hs '\'' (by decide) hc
  refine ⟨String.ofList (shownItems items), (Sql.isLiteral_iff (toList_text_strings items)).2 ?_, ?_⟩
  · rw [String.toList_ofList, Text.doubled_of_notMem hq]
  · rw [IsContent, String.toList_ofList, hw, ArrayText.read?_written]

end

section

variable {c : Char} {m : Hstore}

theorem count_shownEntries (c : Char) (entries : List (String × Option String)) : (shownEntries entries).count c =
    (entries.flatMap shownEntry).count c + (entries.length - 1) * [',', ' '].count c := by
  rw [shownEntries, count_intercalate, List.length_map, List.flatMap_def]

theorem count_shownEntry (h : c ∉ ['"', '=', '>', 'N', 'U', 'L']) (e : String × Option String) :
    (shownEntry e).count c = (chars e).count c := by
  simp only [List.mem_cons, List.not_mem_nil, or_false, not_or] at h
  obtain ⟨hq, hs, ha, hn, hu, hl⟩ := h
  obtain ⟨k, v⟩ := e
  have hw (s : String) : (shownWord s).count c = s.toList.count c := by
    simp [shownWord, List.count_cons_of_ne (Ne.symm hq)]
  cases v with
  | none =>
    simp [shownEntry, chars, hw, List.count_cons_of_ne (Ne.symm hs), List.count_cons_of_ne (Ne.symm ha),
      List.count_cons_of_ne (Ne.symm hn), List.count_cons_of_ne (Ne.symm hu), List.count_cons_of_ne (Ne.symm hl)]
  | some s =>
    simp [shownEntry, chars, hw, List.count_cons_of_ne (Ne.symm hs), List.count_cons_of_ne (Ne.symm ha)]

theorem count_shownEntries_of_word (h : c ∉ ['"', '=', '>', 'N', 'U', 'L']) (entries : List (String × Option String)) :
    (shownEntries entries).count c = (entries.flatMap chars).count c + (entries.length - 1) * [',', ' '].count c := by
  rw [count_shownEntries, count_flatMap_congr fun e _ ↦ count_shownEntry h e]

theorem count_quote_shownEntry (e : String × Option String) :
    (shownEntry e).count '"' = (writtenEntry e).count '"' := by
  have hw (s : String) : (shownWord s).count '"' = (MapText.quotedWord s).count '"' := by
    rw [MapText.count_quotedWord]
    simp [shownWord]
  obtain ⟨k, v⟩ := e
  cases v with
  | none => simp [shownEntry, writtenEntry, MapText.writtenValue, MapText.nullWord, hw]
  | some s => simp [shownEntry, writtenEntry, MapText.writtenValue, hw]

theorem count_apostrophe_shownEntries (entries : List (String × Option String)) :
    (shownEntries entries).count '\'' = (entries.flatMap chars).count '\'' :=
  count_shownEntries_of_word (by decide) entries

theorem lacks_of_isShown_hstore (h : (hstore m).IsShown) :
    ∀ e ∈ m.entries, ∀ s ∈ e.1 :: e.2.toList, Lacks ['\'', '"', '\\'] s := by
  obtain ⟨content, hl, entries, hr, hm⟩ := h
  have hy : MapText.Yields entries m := (hm m).2 rfl
  have hd := (Sql.isLiteral_iff (toList_text_hstore m)).1 hl
  have hcount (c : Char) (hc : c ≠ '\'') : content.toList.count c = (shownEntries m.entries).count c := by
    rw [hd, Text.count_doubled, if_neg hc, Nat.one_mul]
  have ha : (m.entries.flatMap chars).count '\'' = 0 := by
    have hs := count_apostrophe_shownEntries m.entries
    have hle := MapText.count_apostrophe_le hr hy
    rw [hd, Text.count_doubled, if_pos rfl] at hs
    omega
  obtain ⟨hb, hq⟩ : (m.entries.flatMap chars).count '\\' = 0 ∧ (m.entries.flatMap chars).count '"' = 0 := by
    apply MapText.free_of_read? hr hy
    · rw [hcount '\\' (by decide), count_shownEntries_of_word (by decide)]
      rfl
    · have ho : [',', ' '].count ',' = 1 := by decide
      rw [hcount ',' (by decide), count_shownEntries_of_word (by decide), ho, Nat.mul_one]
    · rw [hcount '"' (by decide), count_shownEntries, count_flatMap_congr fun e _ ↦ count_quote_shownEntry e]
      rfl
  intro e he s hs c hc hcs
  have hmem : c ∈ m.entries.flatMap chars := List.mem_flatMap.2 ⟨e, he, MapText.mem_chars.2 ⟨s, hs, hcs⟩⟩
  simp only [List.mem_cons, List.not_mem_nil, or_false] at hc
  obtain rfl | rfl | rfl := hc
  · exact List.count_eq_zero.1 ha hmem
  · exact List.count_eq_zero.1 hq hmem
  · exact List.count_eq_zero.1 hb hmem

theorem shownWord_of_lacks {s : String} (h : Lacks ['\'', '"', '\\'] s) : shownWord s = MapText.quotedWord s := by
  rw [shownWord, MapText.quotedWord, escaped_of_notMem (h '"' (by decide)) (h '\\' (by decide))]

theorem shownEntry_of_lacks {e : String × Option String} (h : ∀ s ∈ e.1 :: e.2.toList, Lacks ['\'', '"', '\\'] s) :
    shownEntry e = writtenEntry e := by
  obtain ⟨k, v⟩ := e
  obtain ⟨hk, hv⟩ := List.forall_mem_cons.1 h
  rw [shownEntry, writtenEntry, shownWord_of_lacks hk]
  cases v with
  | none => rfl
  | some s =>
    rw [Option.elim_some, shownWord_of_lacks (hv s List.mem_cons_self), MapText.writtenValue, Option.elim_some]

theorem isShown_hstore_of_lacks (h : ∀ e ∈ m.entries, ∀ s ∈ e.1 :: e.2.toList, Lacks ['\'', '"', '\\'] s) :
    (hstore m).IsShown := by
  have hw : shownEntries m.entries = MapText.written m.entries := by
    rw [shownEntries, List.map_congr_left fun e he ↦ shownEntry_of_lacks (h e he), MapText.written]
  have hq : '\'' ∉ shownEntries m.entries := by
    rw [← List.count_eq_zero, count_apostrophe_shownEntries, List.count_eq_zero]
    intro hc
    obtain ⟨e, he, hc⟩ := List.mem_flatMap.1 hc
    obtain ⟨s, hs, hc⟩ := MapText.mem_chars.1 hc
    exact h e he s hs '\'' (by decide) hc
  refine ⟨String.ofList (shownEntries m.entries), (Sql.isLiteral_iff (toList_text_hstore m)).2 ?_, m.entries, ?_, ?_⟩
  · rw [String.toList_ofList, Text.doubled_of_notMem hq]
  · rw [String.toList_ofList, hw, MapText.read?_written]
  · exact fun m' ↦ MapText.yields_entries_iff

end

/-- Texts and documents are shown as literals of themselves, whatever they hold. An array is if and only if no item
holds a single quote, which would have to stand twice, or a backslash, which would have to stand behind another. A map
is if and only if, besides, no key and no value holds a quote mark. -/
theorem isShown_iff_lacks (s : String) (j : Json) (items : List String) (m : Hstore) :
    (string s).IsShown ∧ (json j).IsShown ∧
    ((strings items).IsShown ↔ ∀ s ∈ items, Lacks ['\'', '\\'] s) ∧
    ((hstore m).IsShown ↔ ∀ e ∈ m.entries, ∀ s ∈ e.1 :: e.2.toList, Lacks ['\'', '"', '\\'] s) := by
  have hs : (string s).text = Text.quotedLiteral s := rfl
  have hj : (json j).text = Text.quotedLiteral j.text := rfl
  exact ⟨isShown_quotedLiteral hs rfl, isShown_quotedLiteral hj rfl,
    ⟨lacks_of_isShown_strings, isShown_strings_of_lacks⟩, ⟨lacks_of_isShown_hstore, isShown_hstore_of_lacks⟩⟩

theorem not_isShown_apostrophe : ¬(strings ["it's"]).IsShown := by
  obtain ⟨-, -, harray, -⟩ := isShown_iff_lacks "it's" .null ["it's"] .empty
  intro h
  have hlacks : '\'' ∉ "it's".toList := harray.1 h "it's" List.mem_cons_self '\'' List.mem_cons_self
  exact hlacks (by decide)

end Upsert.Value
