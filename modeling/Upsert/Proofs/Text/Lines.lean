import Mathlib.Data.List.TakeWhile
import Upsert.Proofs.Text.Blank
import Upsert.Text.Basic

namespace Upsert.Text

variable {mark : Char} {cs front back : List Char}

theorem cutOnce_of_notMem (h : mark ∉ cs) : cutOnce mark cs = (cs, none) := by
  have hd : cs.dropWhile (fun c ↦ !(c == mark)) = [] := by
    rw [List.dropWhile_eq_nil_iff]
    intro c hc
    simpa using ne_of_mem_of_not_mem hc h
  simp only [cutOnce, cut?, hd]

theorem cutOnce_append (h : mark ∉ front) : cutOnce mark (front ++ mark :: back) = (front, some back) := by
  have hf : ∀ c ∈ front, !(c == mark) := by
    intro c hc
    simpa using ne_of_mem_of_not_mem hc h
  have hd : (front ++ mark :: back).dropWhile (fun c ↦ !(c == mark)) = mark :: back := by
    rw [List.dropWhile_append_of_pos hf, List.dropWhile_cons_of_neg (by simp)]
  have ht : (front ++ mark :: back).takeWhile (fun c ↦ !(c == mark)) = front := by
    rw [List.takeWhile_append_of_pos hf, List.takeWhile_cons_of_neg (by simp), List.append_nil]
  simp only [cutOnce, cut?, hd, ht, List.drop_one, List.tail_cons]

theorem eq_of_append_mark {front' back' : List Char} (h : mark ∉ front) (h' : mark ∉ front')
    (he : front ++ mark :: back = front' ++ mark :: back') : front = front' ∧ back = back' := by
  have hc : cutOnce mark (front ++ mark :: back) = cutOnce mark (front' ++ mark :: back') := congrArg _ he
  rw [cutOnce_append h, cutOnce_append h'] at hc
  cases hc
  exact ⟨rfl, rfl⟩

theorem split_ne_nil (mark : Char) (cs : List Char) : split mark cs ≠ [] := by
  induction cs with
  | nil => exact List.cons_ne_nil _ _
  | cons c cs ih =>
    rw [split]
    split_ifs
    · exact List.cons_ne_nil _ _
    · split <;> exact List.cons_ne_nil _ _

theorem split_of_notMem (h : mark ∉ cs) : split mark cs = [cs] := by
  induction cs with
  | nil => rfl
  | cons c cs ih =>
    obtain ⟨hc, hcs⟩ := not_or.1 (mt List.mem_cons.2 h)
    rw [split, if_neg (Ne.symm hc), ih hcs]

theorem split_append (mark : Char) (front back : List Char) :
    split mark (front ++ mark :: back) = split mark front ++ split mark back := by
  induction front with
  | nil =>
    have h : split mark (mark :: back) = [] :: split mark back := if_pos rfl
    exact h
  | cons c front ih =>
    rw [List.cons_append, split, split, ih]
    split_ifs
    · rfl
    · cases hs : split mark front with
      | nil => exact absurd hs (split_ne_nil mark front)
      | cons piece pieces => rfl

def withoutReturn (piece : List Char) : List Char := if piece.getLast? = some '\r' then piece.dropLast else piece

/-- The lines of pieces between line feeds. What stands behind the last line feed is a line unless it is empty. -/
def ended : List (List Char) → List (List Char)
  | [] => []
  | [last] => if last = [] then [] else [last]
  | piece :: pieces => withoutReturn piece :: ended pieces

/-- The lines of a text. A line ends with a line feed, which a carriage return may precede, or with the text. -/
def lines (cs : List Char) : List (List Char) := ended (split '\n' cs)

theorem ended_append {pieces last : List (List Char)} (h : last ≠ []) :
    ended (pieces ++ last) = pieces.map withoutReturn ++ ended last := by
  induction pieces with
  | nil => rfl
  | cons piece pieces ih =>
    rw [List.cons_append, ended, ih]
    · rfl
    · simp [h]

theorem lines_append_feed (front back : List Char) :
    lines (front ++ '\n' :: back) = lines (front ++ ['\n']) ++ lines back := by
  have hf : lines (front ++ ['\n']) = (split '\n' front).map withoutReturn := by
    rw [lines, split_append, ended_append (split_ne_nil _ _)]
    exact List.append_nil _
  rw [hf, lines, split_append, ended_append (split_ne_nil _ _)]
  rfl

theorem lines_feed (h : '\n' ∉ cs) : lines (cs ++ ['\n']) = [withoutReturn cs] := by
  rw [lines, split_append, split_of_notMem h, ended_append (split_ne_nil _ _)]
  rfl

theorem lines_of_line (h : '\n' ∉ cs) (hn : cs ≠ []) (hr : cs.getLast? ≠ some '\r') {ending : List Char}
    (he : ending ∈ [[], ['\n'], ['\r', '\n']]) : lines (cs ++ ending) = [cs] := by
  simp only [List.mem_cons, List.not_mem_nil, or_false] at he
  obtain rfl | rfl | rfl := he
  · rw [List.append_nil, lines, split_of_notMem h]
    exact if_neg hn
  · rw [lines_feed h, withoutReturn, if_neg hr]
  · have hc : '\n' ∉ cs ++ ['\r'] := by simpa using h
    rw [List.append_cons, lines_feed hc, withoutReturn, if_pos List.getLast?_concat, List.dropLast_concat]

end Upsert.Text
