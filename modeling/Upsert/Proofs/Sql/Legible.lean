import Mathlib.Data.List.Chain
import Upsert.Proofs.Sql.Lexeme
import Upsert.Sql.Insert

namespace Upsert.Sql

open Lexer

inductive Kind
  | loose
  | operator
  | solid
  deriving DecidableEq

def operatorHeads : List Char := ['<', '>', '=', '-', '*']

namespace Kind

def ofChar (c : Char) : Kind :=
  if operatorHeads.contains c then .operator
  else if c == ' ' || punctuation.contains c then .loose
  else .solid

def Apart (k l : Kind) : Prop := k = .loose ∨ l = .loose ∨ k ≠ l

instance (k l : Kind) : Decidable (k.Apart l) := inferInstanceAs (Decidable (_ ∨ _ ∨ _))

theorem Apart.ne {k l : Kind} (h : k.Apart l) (hk : k ≠ .loose) : l ≠ k := by
  rintro rfl
  rcases h with h | h | h
  exacts [hk h, hk h, h rfl]

end Kind

def isHead (c : Char) : Bool := Kind.ofChar c != .solid || isQuote c || c == '$' || isWordStart c

def bareKind (s : String) : Kind := s.toList.head?.elim .loose .ofChar

def isBare (s : String) : Bool :=
  match s.toList with
  | [] => false
  | c :: cs =>
    match Kind.ofChar c with
    | .loose => c != ' ' && cs.isEmpty
    | .operator => cs.all fun d ↦ isOperatorChar d && !doubtfulChars.contains d
    | .solid => isWordStart c && cs.all isWordChar

def Lexeme.bare (s : String) : Lexeme := if bareKind s = .solid then .word s else .symbol s

namespace Token

def kind : Token → Kind
  | .word s | .mark s | .verbatim s => bareKind s
  | .blank => .loose
  | .name _ | .literal _ | .value _ => .solid

def isReadable : Token → Bool
  | .word s | .mark s | .verbatim s => isBare s
  | _ => true

def lexeme? (index : Nat) : Token → Option Lexeme
  | .word s | .mark s | .verbatim s => some (.bare s)
  | .blank => none
  | .name s => some (.name s)
  | .literal s => some (.literal s)
  | .value _ => some (.parameter (index + 1))

def next (index : Nat) (t : Token) : Nat := if t.value?.isSome then index + 1 else index

end Token

def lexemes (index : Nat) : List Token → List Lexeme
  | [] => []
  | t :: ts => (t.lexeme? index).toList ++ lexemes (t.next index) ts

/-- Tokens that are read back one by one. -/
structure Legible (ts : List Token) : Prop where
  readable : ∀ t ∈ ts, t.isReadable
  apart : ts.IsChain fun t u ↦ t.kind.Apart u.kind

namespace Lexer

/-- Between tokens, the characters are read as lexemes and the beginning of one more. -/
def Reads (cs : List Char) (ls : List Lexeme) (s : State) : Prop :=
  ∀ rest, State.gap.run (cs ++ rest) = (s.run rest).map (ls ++ ·)

variable {c mark : Char} {cs : List Char} {ls : List Lexeme} {s : State}

theorem reads_of_start (h : start c = some (ls, s)) : Reads [c] ls s := fun _ ↦ run_of_start h

theorem reads_of_extend {f : List Char → State} {acc : List Char} (hs : start c = some ([], f acc))
    (h : ∀ d ∈ cs, ∀ acc, (f acc).refuses d = false ∧ (f acc).extend d = some (f (acc ++ [d]))) :
    Reads (c :: cs) [] (f (acc ++ cs)) := by
  intro rest
  rw [List.cons_append, run_of_start hs, run_append_of_extend rest h]

theorem start_of_isWordStart (h : isWordStart c) : start c = some ([], .word [c]) := by
  have hc : c ≠ ' ' ∧ isQuote c = false ∧ c ≠ '$' := by
    refine ⟨?_, ?_, ?_⟩
    · rintro rfl
      cases h
    · rw [isQuote, Bool.or_eq_false_iff, beq_eq_false_iff_ne, beq_eq_false_iff_ne]
      constructor <;> rintro rfl <;> cases h
    · rintro rfl
      cases h
  simp [start, hc, h]

theorem isOperatorChar_of_mem_operatorHeads (h : c ∈ operatorHeads) : isOperatorChar c := by
  simp only [operatorHeads, List.mem_cons, List.not_mem_nil, or_false] at h
  rcases h with rfl | rfl | rfl | rfl | rfl <;> rfl

theorem start_of_isOperatorChar (h : isOperatorChar c) : start c = some ([], .operator [c]) := by
  simp only [isOperatorChar, operatorChars, List.contains_iff_mem, List.mem_cons, List.not_mem_nil, or_false] at h
  rcases h with rfl | rfl | rfl | rfl | rfl | rfl | rfl | rfl | rfl | rfl | rfl | rfl | rfl | rfl | rfl | rfl <;> rfl

theorem start_of_punctuation (h : c ∈ punctuation) : start c = some ([.symbol (String.ofList [c])], .gap) := by
  simp only [punctuation, List.mem_cons, List.not_mem_nil, or_false] at h
  rcases h with rfl | rfl | rfl | rfl | rfl <;> rfl

theorem reads_word (hc : isWordStart c) (hs : ∀ d ∈ cs, isWordChar d) : Reads (c :: cs) [] (.word (c :: cs)) := by
  refine reads_of_extend (start_of_isWordStart hc) fun d hd acc ↦ ⟨?_, if_pos (hs d hd)⟩
  rw [State.refuses, Bool.or_eq_false_iff, beq_eq_false_iff_ne, beq_eq_false_iff_ne]
  constructor <;> rintro rfl <;> cases hs _ hd

theorem reads_operator (hc : isOperatorChar c)
    (hs : ∀ d ∈ cs, isOperatorChar d ∧ d ∉ doubtfulChars) : Reads (c :: cs) [] (.operator (c :: cs)) :=
  reads_of_extend (start_of_isOperatorChar hc) fun d hd _ ↦
    ⟨by simpa [State.refuses] using (hs d hd).2, if_pos (hs d hd).1⟩

theorem reads_quoted (hm : isQuote mark) (s : String) :
    Reads (Text.quoted mark s).toList [] (.closed mark s.toList) := by
  intro rest
  have hs : start mark = some ([], .quoted mark []) := by
    rcases (by simpa [isQuote] using hm : mark = '"' ∨ mark = '\'') with rfl | rfl <;> rfl
  rw [Text.quoted, String.toList_ofList, List.cons_append, List.cons_append, run_of_start hs, List.append_assoc,
    List.singleton_append, run_quoted]
  rfl

theorem placeholder_toList (index : Nat) : (placeholder index).toList = '$' :: Nat.toDigits 10 (index + 1) := by
  rw [placeholder, String.toList_append, Nat.toString_eq_repr, Nat.toList_repr]
  rfl

theorem reads_placeholder (index : Nat) :
    Reads (placeholder index).toList [] (.parameter (Nat.toDigits 10 (index + 1))) := by
  have hs : start '$' = some ([], .parameter []) := rfl
  rw [placeholder_toList]
  refine reads_of_extend (f := .parameter) hs fun d hd acc ↦ ?_
  have hd := Text.isDigit_of_mem_toDigits hd
  exact ⟨by rw [State.refuses, hd, Bool.not_true, Bool.and_false], if_pos hd⟩

theorem mem_heads_of_ofChar (h : Kind.ofChar c ≠ .solid) : c ∈ operatorHeads ∨ c ∈ ' ' :: punctuation := by
  by_contra hn
  obtain ⟨ho, hp⟩ := not_or.1 hn
  exact h (by simpa [Kind.ofChar, ho] using hp)

theorem mem_operatorHeads (h : Kind.ofChar c = .operator) : c ∈ operatorHeads := by
  by_contra hn
  rw [Kind.ofChar, if_neg (by simpa using hn)] at h
  split at h <;> cases h

theorem mem_punctuation (h : Kind.ofChar c = .loose) (hb : c ≠ ' ') : c ∈ punctuation := by
  rcases mem_heads_of_ofChar (by rw [h]; decide) with ho | hp
  · rw [Kind.ofChar, if_pos (by simpa using ho)] at h
    cases h
  · exact (List.mem_cons.1 hp).resolve_left hb

theorem not_isWordChar (h : Kind.ofChar c ≠ .solid) : isWordChar c = false ∧ isQuote c = false ∧ c ≠ '&' := by
  have hc := mem_heads_of_ofChar h
  simp only [operatorHeads, punctuation, List.mem_cons, List.not_mem_nil, or_false] at hc
  rcases hc with (rfl | rfl | rfl | rfl | rfl) | (rfl | rfl | rfl | rfl | rfl | rfl) <;> decide

theorem not_isOperatorChar (h : Kind.ofChar c ≠ .operator) (hh : isHead c) : isOperatorChar c = false := by
  by_contra ho
  simp only [Bool.not_eq_false, isOperatorChar, operatorChars, List.contains_iff_mem, List.mem_cons,
    List.not_mem_nil, or_false] at ho
  rcases ho with rfl | rfl | rfl | rfl | rfl | rfl | rfl | rfl | rfl | rfl | rfl | rfl | rfl | rfl | rfl | rfl <;>
    first
    | exact h rfl
    | cases hh

structure Ends (s : State) (c : Char) : Prop where
  accepted : s.refuses c = false
  ended : s.extend c = none

theorem ends_gap (c : Char) : Ends .gap c := ⟨rfl, rfl⟩

theorem ends_closed (hm : isQuote mark) (h : Kind.ofChar c ≠ .solid) : Ends (.closed mark cs) c := by
  refine ⟨rfl, if_neg ?_⟩
  rintro rfl
  rw [(not_isWordChar h).2.1] at hm
  cases hm

theorem ends_word (h : Kind.ofChar c ≠ .solid) : Ends (.word cs) c := by
  obtain ⟨hw, hq, ha⟩ := not_isWordChar h
  have hq : c ≠ '\'' := by
    rintro rfl
    cases hq
  exact ⟨by simp [State.refuses, hq, ha], if_neg (by simp [hw])⟩

theorem ends_parameter (h : Kind.ofChar c ≠ .solid) : Ends (.parameter cs) c := by
  have hw := (not_isWordChar h).1
  have hd : Text.isDigit c = false := by
    rw [isWordChar, Bool.or_eq_false_iff, Bool.or_eq_false_iff] at hw
    exact hw.1.2
  exact ⟨by simp [State.refuses, hw], if_neg (by simp [hd])⟩

theorem ends_operator (h : Kind.ofChar c ≠ .operator) (hh : isHead c) : Ends (.operator cs) c := by
  have ho := not_isOperatorChar h hh
  refine ⟨?_, if_neg (by simp [ho])⟩
  by_contra hr
  simp only [State.refuses, doubtfulChars, Bool.not_eq_false, List.contains_iff_mem, List.mem_cons,
    List.not_mem_nil, or_false] at hr
  rcases hr with rfl | rfl | rfl | rfl <;> cases ho

end Lexer

def bareState (s : String) : State :=
  match bareKind s with
  | .loose => .gap
  | .operator => .operator s.toList
  | .solid => .word s.toList

theorem reads_bare {s : String} (h : isBare s) : ∃ ls ended,
    Reads s.toList ls (bareState s) ∧ (bareState s).flush = some ended ∧ ls ++ ended = [.bare s] := by
  unfold isBare at h
  unfold bareState Lexeme.bare bareKind
  split at h
  · cases h
  · rename_i c cs hs
    have hb : String.ofList (c :: cs) = s := by rw [← hs, String.ofList_toList]
    simp only [hs, List.head?_cons, Option.elim_some]
    cases hk : Kind.ofChar c with
    | loose =>
      rw [hk] at h
      obtain ⟨hc, hn⟩ := Bool.and_eq_true_iff.1 h
      obtain rfl := List.isEmpty_iff.1 hn
      have hs := start_of_punctuation (mem_punctuation hk (by simpa using hc))
      exact ⟨[.symbol s], [], hb ▸ reads_of_start hs, rfl, rfl⟩
    | operator =>
      rw [hk] at h
      have ho := isOperatorChar_of_mem_operatorHeads (mem_operatorHeads hk)
      exact ⟨[], [.symbol s], reads_operator ho (by simpa using h), by simp [State.flush, hb], rfl⟩
    | solid =>
      rw [hk] at h
      obtain ⟨hc, hw⟩ := Bool.and_eq_true_iff.1 h
      exact ⟨[], [.word s], reads_word hc (by simpa using hw), by simp [State.flush, hb], rfl⟩

namespace Token

variable {t u : Token} {index : Nat} {c : Char}

def state (index : Nat) : Token → State
  | .word s | .mark s | .verbatim s => bareState s
  | .blank => .gap
  | .name s => .closed '"' s.toList
  | .literal s => .closed '\'' s.toList
  | .value _ => .parameter (Nat.toDigits 10 (index + 1))

theorem reads (index : Nat) (h : t.isReadable) : ∃ ls ended, Reads (t.text index).toList ls (t.state index) ∧
    (t.state index).flush = some ended ∧ ls ++ ended = (t.lexeme? index).toList := by
  cases t with
  | word s => exact reads_bare h
  | mark s => exact reads_bare h
  | verbatim s => exact reads_bare h
  | blank =>
    refine ⟨[], [], ?_, rfl, rfl⟩
    rw [text]
    exact reads_of_start (c := ' ') rfl
  | name s => exact ⟨[], _, reads_quoted rfl s, rfl, by simp [lexeme?, Lexeme.quoted]⟩
  | literal s => exact ⟨[], _, reads_quoted rfl s, rfl, by simp [lexeme?, Lexeme.quoted]⟩
  | value v =>
    refine ⟨[], _, reads_placeholder index, if_neg Nat.toDigits_ne_nil, ?_⟩
    rw [Text.ofDigits_toDigits]
    rfl

theorem exists_head (index : Nat) (h : t.isReadable) :
    ∃ c cs, (t.text index).toList = c :: cs ∧ Kind.ofChar c = t.kind ∧ isHead c := by
  have hb {s : String} (h : isBare s) : ∃ c cs, s.toList = c :: cs ∧ Kind.ofChar c = bareKind s ∧ isHead c := by
    unfold isBare at h
    unfold bareKind
    split at h
    · cases h
    · rename_i c cs hs
      refine ⟨c, cs, hs, by simp [hs], ?_⟩
      cases hk : Kind.ofChar c with
      | loose => simp [isHead, hk]
      | operator => simp [isHead, hk]
      | solid =>
        rw [hk] at h
        simp [isHead, (Bool.and_eq_true_iff.1 h).1]
  cases t with
  | word s => exact hb h
  | mark s => exact hb h
  | verbatim s => exact hb h
  | blank => exact ⟨' ', [], (rfl : " ".toList = [' ']), rfl, rfl⟩
  | name s => exact ⟨'"', _, String.toList_ofList, rfl, rfl⟩
  | literal s => exact ⟨'\'', _, String.toList_ofList, rfl, rfl⟩
  | value v => exact ⟨'$', _, placeholder_toList index, rfl, rfl⟩

theorem ends (index : Nat) (h : t.kind.Apart (.ofChar c)) (hh : isHead c) : Ends (t.state index) c := by
  have hb {s : String} (h : (bareKind s).Apart (.ofChar c)) : Ends (bareState s) c := by
    unfold bareState
    cases hk : bareKind s with
    | loose => exact ends_gap c
    | operator => exact ends_operator ((hk ▸ h).ne (by decide)) hh
    | solid => exact ends_word ((hk ▸ h).ne (by decide))
  cases t with
  | word s => exact hb h
  | mark s => exact hb h
  | verbatim s => exact hb h
  | blank => exact ends_gap c
  | name s => exact ends_closed rfl (h.ne Kind.noConfusion)
  | literal s => exact ends_closed rfl (h.ne Kind.noConfusion)
  | value v => exact ends_parameter (h.ne Kind.noConfusion)

end Token

theorem run_texts {ts : List Token} (h : Legible ts) (index : Nat) :
    State.gap.run ((texts index ts).flatMap String.toList) = some (lexemes index ts) := by
  induction ts generalizing index with
  | nil => rfl
  | cons t ts ih =>
    obtain ⟨hr, ha⟩ := h
    obtain ⟨ht, hts⟩ := List.forall_mem_cons.1 hr
    obtain ⟨ls, ended, hl, hf, he⟩ := t.reads index ht
    have hn : texts index (t :: ts) = t.text index :: texts (t.next index) ts := rfl
    rw [hn, List.flatMap_cons, hl, lexemes, ← he]
    cases ts with
    | nil => simp [texts, State.run, hf, lexemes]
    | cons u us =>
      -- What ends this token is the first character of the next one.
      obtain ⟨htu, hc⟩ := List.isChain_cons_cons.1 ha
      have ih := ih ⟨hts, hc⟩ (t.next index)
      obtain ⟨c, cs, hu, hk, hh⟩ := u.exists_head (t.next index) (hts u List.mem_cons_self)
      obtain ⟨hr, hx⟩ := t.ends index (hk ▸ htu) hh
      rw [texts, List.flatMap_cons, hu, List.cons_append] at ih ⊢
      rw [run_of_break hr hx hf, ih, Option.map_some, Option.map_some, List.append_assoc]

theorem lex_text {ts : List Token} (h : Legible ts) : lex (text ts) = some (lexemes 0 ts) := by
  rw [lex, text, String.toList_join]
  exact run_texts h 0

section

variable {t : Token} {ts us : List Token}

theorem legible_nil : Legible [] := ⟨by simp, .nil⟩

theorem legible_singleton (h : t.isReadable) : Legible [t] := ⟨by simpa using h, .singleton t⟩

theorem Legible.append_of_apart (hts : Legible ts) (hus : Legible us)
    (h : ∀ t ∈ ts.getLast?, ∀ u ∈ us.head?, t.kind.Apart u.kind) : Legible (ts ++ us) := by
  refine ⟨fun t ht ↦ ?_, List.isChain_append.2 ⟨hts.apart, hus.apart, h⟩⟩
  rcases List.mem_append.1 ht with ht | ht
  exacts [hts.readable t ht, hus.readable t ht]

/-- Tokens that can follow any others: none, or a token that stands alone with others behind it. -/
structure Clause (ts : List Token) : Prop where
  legible : Legible ts
  loose : ∀ t ∈ ts.head?, t.kind = .loose

theorem clause_nil : Clause [] := ⟨legible_nil, by simp⟩

theorem Clause.cons (ht : t.isReadable) (hk : t.kind = .loose) (hts : Legible ts) : Clause (t :: ts) := by
  refine ⟨(legible_singleton ht).append_of_apart hts ?_, ?_⟩
  · intro u hu _ _
    exact .inl (Option.some.inj hu ▸ hk)
  · intro u hu
    exact Option.some.inj hu ▸ hk

theorem Legible.append (hts : Legible ts) (hus : Clause us) : Legible (ts ++ us) :=
  hts.append_of_apart hus.legible fun _ _ u hu ↦ .inr (.inl (hus.loose u hu))

theorem Clause.append (hts : Clause ts) (hus : Clause us) : Clause (ts ++ us) := by
  refine ⟨hts.legible.append hus, ?_⟩
  cases ts with
  | nil => exact hus.loose
  | cons t ts => exact hts.loose

theorem Legible.parenthesized (h : Legible ts) : Clause (parenthesized ts) :=
  .cons rfl rfl (h.append (.cons rfl rfl legible_nil))

theorem legible_separated {tss : List (List Token)} (h : ∀ ts ∈ tss, Legible ts) : Legible (separated tss) := by
  induction tss with
  | nil => exact legible_nil
  | cons ts tss ih =>
    obtain ⟨hts, htss⟩ := List.forall_mem_cons.1 h
    cases tss with
    | nil => exact hts
    | cons us uss =>
      have hs : separated (ts :: us :: uss) = ts ++ [.mark ",", .blank] ++ separated (us :: uss) := rfl
      rw [hs, List.append_assoc]
      exact hts.append (.cons rfl rfl (Clause.cons rfl rfl (ih htss)).legible)

theorem clause_spaced (words : List String) (hw : ∀ w ∈ words, isBare w) (hts : Legible ts) :
    Clause (spaced words ++ ts) := by
  induction words with
  | nil => exact .cons rfl rfl hts
  | cons w words ih =>
    obtain ⟨hw, hws⟩ := List.forall_mem_cons.1 hw
    have hs : spaced (w :: words) ++ ts = .blank :: ([.word w] ++ (spaced words ++ ts)) := rfl
    rw [hs]
    exact .cons rfl rfl ((legible_singleton (t := .word w) hw).append (ih hws))

end

end Upsert.Sql
