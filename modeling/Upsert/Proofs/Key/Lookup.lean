import Upsert.Proofs.Key.Table
import Upsert.Proofs.Value.Fingerprint

namespace Upsert

def Key.documents (k : Key) : List (Option Json) := k.map Value.document?

theorem Key.same_iff_of_beq {k l : Key} (h : k == l) : k.same l ↔ k.documents = l.documents := by
  rw [same_iff]
  have hp := (beq_iff k l).1 h
  refine (and_iff_right hp).trans ?_
  induction k generalizing l with
  | nil =>
    cases l with
    | nil => simp [documents]
    | cons w l => simp at hp
  | cons v k ih =>
    cases l with
    | nil => simp at hp
    | cons w l =>
      obtain ⟨hv, hk⟩ := List.cons_eq_cons.1 hp
      have hf := Value.fingerprint_eq_iff ((Value.beq_iff v w).2 hv)
      have ih := ih ((beq_iff k l).2 hk) hk
      simp only [documents] at ih ⊢
      rw [List.map_cons, List.map_cons, List.map_cons, List.map_cons, List.cons_eq_cons, List.cons_eq_cons, hf, ih]

namespace KeyTable

variable {α : Type} (k : Key) (t : KeyTable α)

def hit? : Option (Key × α) := List.find? (fun e ↦ e.1.same k) t

def search? : Option (Key × α) := List.find? (fun e ↦ e.1 == k) t

theorem find?_eq_hit? : find? k t = (hit? k t).map Prod.snd := rfl

theorem find?_eq_find?_iff {p q : α → Bool} (h : ∀ a, p a → q a) (as : List α) :
    as.find? p = as.find? q ↔ ∀ a ∈ as.find? q, p a := by
  constructor
  · intro he a ha
    rw [← he] at ha
    exact List.find?_some ha
  · intro hp
    cases hq : as.find? q with
    | none =>
      rw [List.find?_eq_none] at hq ⊢
      intro a ha
      exact mt (h a) (hq a ha)
    | some a =>
      -- What satisfies `p` in front of `a` would satisfy `q`.
      obtain ⟨hqa, as₁, as₂, rfl, hn⟩ := List.find?_eq_some_iff_append.1 hq
      refine List.find?_eq_some_iff_append.2 ⟨hp a hq, as₁, as₂, rfl, ?_⟩
      intro b hb
      have hb := hn b hb
      cases hpb : p b with
      | false => rfl
      | true => simp [h b hpb] at hb

theorem hit?_eq_search?_iff : hit? k t = search? k t ↔ ∀ e ∈ search? k t, e.1.documents = k.documents := by
  have hs (e : Key × α) (h : e.1.same k) : e.1 == k := by
    rw [Key.same, Bool.and_eq_true] at h
    exact h.1
  rw [hit?, search?, find?_eq_find?_iff hs]
  refine forall₂_congr fun e he ↦ ?_
  have hk := List.find?_some he
  exact Key.same_iff_of_beq hk

/-- Equal values have equal canonical forms, and both are hashed alike unless they are documents whose zeros differ
in sign. So a look-up finds the entry that a search for an equal key would find, unless that entry holds such a
document. -/
theorem lookup_agrees_iff (v w : Value) :
    (v == w → v.canonical == w.canonical ∧ (v.fingerprint = w.fingerprint ↔ v.document? = w.document?) ∧
      (v.canonical.fingerprint = w.canonical.fingerprint ↔ v.document? = w.document?)) ∧
    find? k t = (hit? k t).map Prod.snd ∧
    (hit? k t = search? k t ↔ ∀ e ∈ search? k t, e.1.documents = k.documents) := by
  refine ⟨fun h ↦ ⟨Value.canonical_beq h, ?_, ?_⟩, find?_eq_hit? k t, hit?_eq_search?_iff k t⟩
  · exact Value.fingerprint_eq_iff h
  · exact Value.fingerprint_canonical_eq_iff h

theorem not_lookup_agrees_zero_sign :
    let zero : Value := .json (Value.toJson (.float ⟨0⟩))
    let negativeZero : Value := .json (Value.toJson (.float ⟨0x8000000000000000⟩))
    zero == negativeZero ∧ zero.fingerprint ≠ negativeZero.fingerprint ∧
      zero.canonical.fingerprint ≠ negativeZero.canonical.fingerprint ∧
      hit? [negativeZero] [([zero], 0)] ≠ search? [negativeZero] [([zero], 0)] := by
  intro zero negativeZero
  have h : zero == negativeZero := rfl
  obtain ⟨hvalues, -, htable⟩ := lookup_agrees_iff [negativeZero] [([zero], 0)] zero negativeZero
  obtain ⟨-, hplain, hcanonical⟩ := hvalues h
  have hd : zero.document? ≠ negativeZero.document? := by
    intro hd
    have hv := hplain.2 hd
    revert hv
    decide
  refine ⟨h, mt hplain.1 hd, mt hcanonical.1 hd, fun he ↦ ?_⟩
  have hk := htable.1 he ([zero], 0) rfl
  exact hd (List.cons_eq_cons.1 hk).1

end KeyTable

end Upsert
