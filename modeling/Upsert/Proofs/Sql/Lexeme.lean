import Upsert.Proofs.Text.Digits
import Upsert.Sql.Token

namespace Upsert.Sql

inductive Lexeme
  | name (s : String)
  | literal (s : String)
  | parameter (n : Nat)
  | word (s : String)
  | symbol (s : String)
  deriving DecidableEq

namespace Lexeme

def parameter? : Lexeme → Option Nat
  | .parameter n => some n
  | _ => none

def quoted (mark : Char) (s : String) : Lexeme := if mark = '"' then .name s else .literal s

end Lexeme

namespace Lexer

def isQuote (c : Char) : Bool := c == '"' || c == '\''

def isWordStart (c : Char) : Bool := c.isAlpha || c == '_' || 128 ≤ c.toNat

def isWordChar (c : Char) : Bool := isWordStart c || Text.isDigit c || c == '$'

def punctuation : List Char := ['(', ')', ',', '.', ';']

def operatorChars : List Char :=
  ['<', '>', '=', '~', '!', '@', '#', '%', '^', '&', '|', '?', '+', '-', '*', '/']

def isOperatorChar (c : Char) : Bool := operatorChars.contains c

/-- What may begin a comment or a sign within an operator. -/
def doubtfulChars : List Char := ['+', '-', '*', '/']

inductive State
  | gap
  | quoted (mark : Char) (cs : List Char)
  /-- Behind a quote mark, which ends the text unless another one follows. -/
  | closed (mark : Char) (cs : List Char)
  | word (cs : List Char)
  | parameter (digits : List Char)
  | operator (cs : List Char)

def State.flush : State → Option (List Lexeme)
  | .gap => some []
  | .quoted _ _ => none
  | .closed mark cs => some [.quoted mark (String.ofList cs)]
  | .word cs => some [.word (String.ofList cs)]
  | .parameter digits => if digits = [] then none else some [.parameter (Text.ofDigits digits)]
  | .operator cs => some [.symbol (String.ofList cs)]

def State.extend : State → Char → Option State
  | .gap, _ => none
  | .quoted mark cs, c => some (if c = mark then .closed mark cs else .quoted mark (cs ++ [c]))
  | .closed mark cs, c => if c = mark then some (.quoted mark (cs ++ [c])) else none
  | .word cs, c => if isWordChar c then some (.word (cs ++ [c])) else none
  | .parameter digits, c => if Text.isDigit c then some (.parameter (digits ++ [c])) else none
  | .operator cs, c => if isOperatorChar c then some (.operator (cs ++ [c])) else none

/-- What might be read as something else than the tokens here: a literal with a letter in front, letters behind a
parameter, and a comment or a sign within an operator. -/
def State.refuses : State → Char → Bool
  | .word _, c => c == '\'' || c == '&'
  | .parameter _, c => isWordChar c && !Text.isDigit c
  | .operator _, c => doubtfulChars.contains c
  | _, _ => false

def start (c : Char) : Option (List Lexeme × State) :=
  if c = ' ' then some ([], .gap)
  else if isQuote c then some ([], .quoted c [])
  else if c = '$' then some ([], .parameter [])
  else if isWordStart c then some ([], .word [c])
  else if isOperatorChar c then some ([], .operator [c])
  else if punctuation.contains c then some ([.symbol (String.ofList [c])], .gap)
  else none

def State.step (s : State) (c : Char) : Option (List Lexeme × State) :=
  if s.refuses c then none
  else
    match s.extend c with
    | some s' => some ([], s')
    | none => do
      let ended ← s.flush
      let (begun, s') ← start c
      return (ended ++ begun, s')

def State.run (s : State) : List Char → Option (List Lexeme)
  | [] => s.flush
  | c :: cs => (s.step c).bind fun (ls, s') ↦ (s'.run cs).map (ls ++ ·)

/-- The text of a statement as a server reads it. -/
def lex (text : String) : Option (List Lexeme) := State.gap.run text.toList

variable {s u : State} {c : Char} {cs : List Char}

theorem run_of_extend (hr : s.refuses c = false) (he : s.extend c = some u) : s.run (c :: cs) = u.run cs := by
  rw [State.run, State.step, hr, he]
  cases h : u.run cs <;> simp [h]

theorem run_gap (c : Char) (cs : List Char) :
    State.gap.run (c :: cs) = (start c).bind fun (ls, u) ↦ (u.run cs).map (ls ++ ·) := by
  rw [State.run, State.step]
  cases start c <;> simp [State.refuses, State.extend, State.flush]

theorem run_of_start {ls : List Lexeme} (h : start c = some (ls, u)) :
    State.gap.run (c :: cs) = (u.run cs).map (ls ++ ·) := by
  rw [run_gap, h]
  rfl

theorem run_of_break {ended : List Lexeme} (hr : s.refuses c = false) (he : s.extend c = none)
    (hf : s.flush = some ended) : s.run (c :: cs) = (State.gap.run (c :: cs)).map (ended ++ ·) := by
  rw [run_gap, State.run, State.step, hr, he, hf]
  cases start c with
  | none => rfl
  | some p => cases h : p.2.run cs <;> simp [h]

theorem run_append_of_extend {f : List Char → State} (rest : List Char)
    (h : ∀ c ∈ cs, ∀ acc, (f acc).refuses c = false ∧ (f acc).extend c = some (f (acc ++ [c]))) (acc : List Char) :
    (f acc).run (cs ++ rest) = (f (acc ++ cs)).run rest := by
  induction cs generalizing acc with
  | nil => simp
  | cons c cs ih =>
    obtain ⟨hc, hcs⟩ := List.forall_mem_cons.1 h
    rw [List.cons_append, run_of_extend (hc acc).1 (hc acc).2, ih hcs, List.append_assoc]
    rfl

/-- Between quote marks, any text is read as it was before its quote marks were doubled. -/
theorem run_quoted (mark : Char) (cs acc rest : List Char) :
    (State.quoted mark acc).run (Text.doubled mark cs ++ mark :: rest) = (State.closed mark (acc ++ cs)).run rest := by
  induction cs generalizing acc with
  | nil =>
    rw [List.append_nil]
    exact run_of_extend rfl (by simp [State.extend])
  | cons c cs ih =>
    have hd : Text.doubled mark (c :: cs) = (if c = mark then [mark, mark] else [c]) ++ Text.doubled mark cs := rfl
    rw [hd]
    by_cases hc : c = mark
    · subst hc
      rw [if_pos rfl, List.append_assoc, List.cons_append, List.cons_append, List.nil_append,
        run_of_extend (u := .closed c acc) rfl (by simp [State.extend]),
        run_of_extend (u := .quoted c (acc ++ [c])) rfl (by simp [State.extend]), ih, List.append_assoc]
      rfl
    · rw [if_neg hc, List.append_assoc, List.cons_append, List.nil_append,
        run_of_extend (u := .quoted mark (acc ++ [c])) rfl (by simp [State.extend, hc]), ih, List.append_assoc]
      rfl

end Lexer

end Upsert.Sql
