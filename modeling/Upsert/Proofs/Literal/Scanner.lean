import Upsert.Proofs.Literal.Escape

namespace Upsert

/-- With a character parts of what is read may end, and only in some states the text may end. -/
structure Scanner (σ α : Type) where
  step : σ → Char → Option (List α × σ)
  flush : σ → Option (List α)

namespace Scanner

open Literal

variable {σ α : Type}

def run (m : Scanner σ α) (s : σ) : List Char → Option (List α)
  | [] => m.flush s
  | c :: cs => (m.step s c).bind fun (ended, u) ↦ (m.run u cs).map (ended ++ ·)

section

variable {m : Scanner σ α} {s u : σ} {c : Char} {cs : List Char} {parts : List α}

theorem run_of_step (h : m.step s c = some (parts, u)) : m.run s (c :: cs) = (m.run u cs).map (parts ++ ·) := by
  rw [run, h]
  rfl

theorem run_of_step_nil (h : m.step s c = some ([], u)) : m.run s (c :: cs) = m.run u cs := by
  rw [run_of_step h]
  exact Option.map_id'

theorem run_escaped {quoted : List Char → Bool → σ}
    (hslash : ∀ acc, m.step (quoted acc false) '\\' = some ([], quoted acc true))
    (hmarked : ∀ acc c, m.step (quoted acc true) c = some ([], quoted (acc ++ [c]) false))
    (hplain : ∀ acc c, ¬(c = '"' ∨ c = '\\') → m.step (quoted acc false) c = some ([], quoted (acc ++ [c]) false))
    (acc cs rest : List Char) :
    m.run (quoted acc false) (escaped cs ++ rest) = m.run (quoted (acc ++ cs) false) rest := by
  induction cs generalizing acc with
  | nil => exact congrArg (fun acc ↦ m.run (quoted acc false) rest) (List.append_nil acc).symm
  | cons c cs ih =>
    rw [List.append_cons acc c cs]
    by_cases h : c = '"' ∨ c = '\\'
    · rw [escaped_cons_of_mark h, List.cons_append, List.cons_append, run_of_step_nil (hslash acc),
        run_of_step_nil (hmarked acc c), ih]
    · rw [escaped_cons_of_plain h, List.cons_append, run_of_step_nil (hplain acc c h), ih]

end

structure Additive (R : List Char → List Char → Prop) : Prop where
  trans : ∀ {l₁ l₂ l₃}, R l₁ l₂ → R l₂ l₃ → R l₁ l₃
  append_left : ∀ {l₁ l₂}, R l₁ l₂ → ∀ front, R (front ++ l₁) (front ++ l₂)
  append_right : ∀ {l₁ l₂}, R l₁ l₂ → ∀ back, R (l₁ ++ back) (l₂ ++ back)

theorem additive_sublist : Additive List.Sublist where
  trans := List.Sublist.trans
  append_left h front := h.append_left front
  append_right h back := h.append_right back

/-- What is kept of the parts that were read, and held of those that are being read, is related to the characters. -/
structure Relates (m : Scanner σ α) (R : List Char → List Char → Prop) (kept : α → List Char) (held : σ → List Char) :
    Prop where
  step : ∀ {s c parts u}, m.step s c = some (parts, u) → R (parts.flatMap kept ++ held u) (held s ++ [c])
  flush : ∀ {s parts}, m.flush s = some parts → R (parts.flatMap kept) (held s)

theorem Relates.of_run {m : Scanner σ α} {R : List Char → List Char → Prop} {kept : α → List Char}
    {held : σ → List Char} (hm : m.Relates R kept held) (hR : Additive R) {s : σ} {cs : List Char} {parts : List α}
    (h : m.run s cs = some parts) : R (parts.flatMap kept) (held s ++ cs) := by
  induction cs generalizing s parts with
  | nil =>
    rw [List.append_nil]
    exact hm.flush h
  | cons c cs ih =>
    obtain ⟨⟨ended, u⟩, hs, h⟩ := Option.bind_eq_some_iff.1 h
    obtain ⟨parts, hu, rfl⟩ := Option.map_eq_some_iff.1 h
    have hr : R (ended.flatMap kept ++ parts.flatMap kept) (ended.flatMap kept ++ (held u ++ cs)) :=
      hR.append_left (ih hu) _
    have hc : R (ended.flatMap kept ++ held u ++ cs) (held s ++ [c] ++ cs) := hR.append_right (hm.step hs) cs
    rw [← List.append_assoc] at hr
    rw [List.flatMap_append, List.append_cons]
    exact hR.trans hr hc

end Scanner

end Upsert
