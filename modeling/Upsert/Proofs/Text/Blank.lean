import Mathlib.Data.List.TakeWhile
import Upsert.Text.Basic

namespace Upsert.Text

variable {cs front back : List Char}

theorem dropBlanks_append (h : ∀ c ∈ front, isBlank c) : dropBlanks (front ++ cs) = dropBlanks cs :=
  List.dropWhile_append_of_pos h

theorem dropBlanks_eq_nil (h : ∀ c ∈ cs, isBlank c) : dropBlanks cs = [] := List.dropWhile_eq_nil_iff.2 h

theorem trimmed_append_left (h : ∀ c ∈ front, isBlank c) : trimmed (front ++ cs) = trimmed cs := by
  rw [trimmed, dropBlanks_append h, trimmed]

theorem trimmed_append_right (h : ∀ c ∈ back, isBlank c) : trimmed (cs ++ back) = trimmed cs := by
  have hr : ∀ c ∈ back.reverse, isBlank c := by
    intro c hc
    exact h c (List.mem_reverse.1 hc)
  have hd : dropBlanks (cs ++ back) = if (dropBlanks cs).isEmpty then dropBlanks back else dropBlanks cs ++ back :=
    List.dropWhile_append
  rw [trimmed, hd, trimmed]
  split_ifs with he
  · rw [List.isEmpty_iff.1 he, dropBlanks_eq_nil h]
  · rw [List.reverse_append, dropBlanks_append hr]

theorem exists_trimmed (cs : List Char) : ∃ front back, (∀ c ∈ front, isBlank c) ∧ (∀ c ∈ back, isBlank c) ∧
    dropBlanks cs = trimmed cs ++ back ∧ cs = front ++ trimmed cs ++ back := by
  have ht : (dropBlanks cs).reverse.takeWhile isBlank ++ dropBlanks (dropBlanks cs).reverse = (dropBlanks cs).reverse :=
    List.takeWhile_append_dropWhile
  have hd : dropBlanks cs = trimmed cs ++ ((dropBlanks cs).reverse.takeWhile isBlank).reverse := by
    rw [trimmed, ← List.reverse_append, ht, List.reverse_reverse]
  refine ⟨cs.takeWhile isBlank, _, ?_, ?_, hd, ?_⟩
  · intro c hc
    exact List.mem_takeWhile_imp hc
  · intro c hc
    exact List.mem_takeWhile_imp (List.mem_reverse.1 hc)
  · rw [List.append_assoc, ← hd, dropBlanks, List.takeWhile_append_dropWhile]

theorem trimmed_eq_nil_iff : trimmed cs = [] ↔ ∀ c ∈ cs, isBlank c := by
  constructor
  · intro h
    obtain ⟨front, back, hf, hb, -, he⟩ := exists_trimmed cs
    rw [he, h, List.append_nil]
    intro c hc
    obtain hc | hc := List.mem_append.1 hc
    · exact hf c hc
    · exact hb c hc
  · intro h
    rw [trimmed, dropBlanks_eq_nil h]
    rfl

theorem head?_trimmed (cs : List Char) : (trimmed cs).head? = (dropBlanks cs).head? := by
  obtain ⟨front, back, -, hb, hd, -⟩ := exists_trimmed cs
  rw [hd]
  cases ht : trimmed cs with
  | cons c rest => rfl
  | nil =>
    have hn : dropBlanks cs = [] := dropBlanks_eq_nil (trimmed_eq_nil_iff.1 ht)
    rw [ht, List.nil_append] at hd
    rw [List.nil_append, ← hd, hn]

theorem isBlank_of_head?_trimmed {c : Char} (h : c ∈ (trimmed cs).head?) : isBlank c = false := by
  rw [head?_trimmed, dropBlanks] at h
  have hc := List.head?_dropWhile_not isBlank cs
  rw [Option.mem_def.1 h] at hc
  simpa using hc

theorem trimmed_of_ends {c d : Char} (hc : isBlank c = false) (hd : isBlank d = false) (cs : List Char) :
    trimmed (c :: cs ++ [d]) = c :: cs ++ [d] := by
  have hf : dropBlanks (c :: cs ++ [d]) = c :: cs ++ [d] := by
    rw [List.cons_append, dropBlanks, List.dropWhile_cons_of_neg (by simp [hc])]
  have hb : dropBlanks (c :: cs ++ [d]).reverse = (c :: cs ++ [d]).reverse := by
    rw [List.reverse_append, List.reverse_singleton, List.singleton_append, dropBlanks,
      List.dropWhile_cons_of_neg (by simp [hd])]
  rw [trimmed, hf, hb, List.reverse_reverse]

end Upsert.Text
