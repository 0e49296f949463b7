import Mathlib.Data.List.Induction
import Mathlib.Data.List.Nodup
import Mathlib.Tactic.SplitIfs
import Upsert.Text.Dictionary

namespace Upsert

variable {α : Type} {entries : List (String × α)}

theorem insertEntry_of_forall_lt {k : String} (h : ∀ e ∈ entries, e.1 < k) (a : α) :
    insertEntry k a entries = entries ++ [(k, a)] := by
  induction entries with
  | nil => rfl
  | cons e entries ih =>
    obtain ⟨l, b⟩ := e
    have hl : l < k := h (l, b) List.mem_cons_self
    have hg : ¬k < l := fun hk ↦ String.lt_irrefl l (String.lt_trans hl hk)
    have hn : k ≠ l := fun hk ↦ String.lt_irrefl l (hk ▸ hl)
    rw [insertEntry, if_neg hg, if_neg hn,
      ih fun e he ↦ h e (List.mem_cons_of_mem _ he), List.cons_append]

theorem lookup_cons_eq_ite (e : String × α) (k : String) :
    (e :: entries).lookup k = if k = e.1 then some e.2 else entries.lookup k := by
  rw [List.lookup_cons]
  split_ifs with h
  · rw [beq_iff_eq.2 h]
  · rw [beq_eq_false_iff_ne.2 h]

theorem lookup_insertEntry (k : String) (a : α) (l : String) :
    (insertEntry k a entries).lookup l = if l = k then some a else entries.lookup l := by
  induction entries with
  | nil => simp [insertEntry, lookup_cons_eq_ite]
  | cons e entries ih =>
    obtain ⟨m, b⟩ := e
    rw [insertEntry]
    split_ifs with h₁ h₂ h₃ h₃ <;> simp_all [lookup_cons_eq_ite]

theorem Ascending.lookup_eq_some_iff (h : Ascending entries) {k : String} {a : α} :
    entries.lookup k = some a ↔ (k, a) ∈ entries := by
  induction entries with
  | nil => simp
  | cons e entries ih =>
    obtain ⟨l, b⟩ := e
    obtain ⟨hl, ha⟩ := List.pairwise_cons.1 h
    rw [lookup_cons_eq_ite, List.mem_cons, Prod.mk.injEq]
    split_ifs with hk
    · have hn : (l, a) ∉ entries := fun hm ↦ String.lt_irrefl l (hl _ hm)
      subst hk
      simp [hn, eq_comm]
    · simp [hk, ih ha]

theorem Ascending.nodup (h : Ascending entries) : entries.Nodup := by
  apply List.Pairwise.imp _ h
  rintro e _ hl rfl
  exact String.lt_irrefl e.1 hl

namespace Dictionary

theorem ext_entries {d d' : Dictionary α} (h : d.entries = d'.entries) : d = d' := by
  cases d
  cases d'
  cases h
  rfl

theorem entries_foldl_insert (d : Dictionary α) (h : Ascending (d.entries ++ entries)) :
    (entries.foldl (fun d e ↦ d.insert e.1 e.2) d).entries = d.entries ++ entries := by
  induction entries generalizing d with
  | nil => exact (List.append_nil _).symm
  | cons e entries ih =>
    have hi : (d.insert e.1 e.2).entries = d.entries ++ [e] :=
      insertEntry_of_forall_lt (fun c hc ↦ (List.pairwise_append.1 h).2.2 c hc e List.mem_cons_self) e.2
    rw [List.foldl_cons, ih, hi, List.append_assoc, List.singleton_append]
    rw [hi, List.append_assoc]
    exact h

theorem entries_ofList (h : Ascending entries) : (ofList entries).entries = entries :=
  entries_foldl_insert empty h

theorem ofList_entries (d : Dictionary α) : ofList d.entries = d := ext_entries (entries_ofList d.ascending)

theorem find?_insert (d : Dictionary α) (k : String) (a : α) (l : String) :
    (d.insert k a).find? l = if l = k then some a else d.find? l := lookup_insertEntry k a l

theorem find?_ofList (entries : List (String × α)) (k : String) :
    (ofList entries).find? k = entries.reverse.lookup k := by
  induction entries using List.reverseRecOn with
  | nil => rfl
  | append_singleton entries e ih =>
    rw [ofList, List.foldl_append, List.foldl_cons, List.foldl_nil, ← ofList, find?_insert, ih, List.reverse_concat,
      lookup_cons_eq_ite]

theorem ext_find? {d d' : Dictionary α} (h : ∀ k, d.find? k = d'.find? k) : d = d' := by
  have hp : d.entries.Perm d'.entries := by
    apply (List.perm_ext_iff_of_nodup d.ascending.nodup d'.ascending.nodup).2
    rintro ⟨k, a⟩
    rw [← d.ascending.lookup_eq_some_iff, ← d'.ascending.lookup_eq_some_iff]
    exact iff_of_eq (congrArg (· = some a) (h k))
  apply ext_entries
  apply hp.eq_of_pairwise _ d.ascending d'.ascending
  intro e e' _ _ hl hg
  exact absurd (String.lt_trans hl hg) (String.lt_irrefl e.1)

end Dictionary

end Upsert
