namespace Upsert

variable {α : Type}

def insertEntry (k : String) (a : α) : List (String × α) → List (String × α)
  | [] => [(k, a)]
  | (l, b) :: rest =>
    if k < l then (k, a) :: (l, b) :: rest
    else if k = l then (k, a) :: rest
    else (l, b) :: insertEntry k a rest

def Ascending (entries : List (String × α)) : Prop := entries.Pairwise (·.1 < ·.1)

theorem mem_insertEntry {k : String} {a : α} {entries : List (String × α)} {e : String × α}
    (h : e ∈ insertEntry k a entries) : e = (k, a) ∨ e ∈ entries := by
  induction entries with
  | nil => simpa [insertEntry] using h
  | cons head rest ih =>
    obtain ⟨l, b⟩ := head
    simp only [insertEntry] at h
    split at h
    · simpa using h
    · split at h
      · rcases List.mem_cons.1 h with h | h
        · exact .inl h
        · exact .inr (List.mem_cons_of_mem _ h)
      · rcases List.mem_cons.1 h with h | h
        · exact .inr (h ▸ List.mem_cons_self)
        · exact (ih h).imp_right (List.mem_cons_of_mem _)

theorem Ascending.insertEntry {k : String} {a : α} {entries : List (String × α)}
    (h : Ascending entries) : Ascending (insertEntry k a entries) := by
  induction entries with
  | nil => simp [Upsert.insertEntry, Ascending]
  | cons head rest ih =>
    obtain ⟨l, b⟩ := head
    obtain ⟨hl, hr⟩ := List.pairwise_cons.1 h
    simp only [Upsert.insertEntry]
    split
    · rename_i hk
      refine List.pairwise_cons.2 ⟨fun e he ↦ ?_, h⟩
      rcases List.mem_cons.1 he with rfl | he
      · exact hk
      · exact String.lt_trans hk (hl e he)
    · rename_i hk
      split
      · rename_i hkl
        subst hkl
        exact List.pairwise_cons.2 ⟨hl, hr⟩
      · rename_i hkl
        refine List.pairwise_cons.2 ⟨fun e he ↦ ?_, ih hr⟩
        rcases mem_insertEntry he with rfl | he
        · exact String.not_le.1 fun h ↦ hkl (String.le_antisymm h (String.not_lt.1 hk))
        · exact hl e he

structure Dictionary (α : Type) where
  entries : List (String × α)
  ascending : Ascending entries

namespace Dictionary

def empty : Dictionary α := ⟨[], List.Pairwise.nil⟩

def insert (d : Dictionary α) (k : String) (a : α) : Dictionary α :=
  ⟨insertEntry k a d.entries, d.ascending.insertEntry⟩

/-- Of several entries of one key the last counts. -/
def ofList (entries : List (String × α)) : Dictionary α :=
  entries.foldl (fun d e ↦ d.insert e.1 e.2) empty

def find? (d : Dictionary α) (k : String) : Option α := d.entries.lookup k

def size (d : Dictionary α) : Nat := d.entries.length

instance [DecidableEq α] : DecidableEq (Dictionary α) := fun a b ↦
  decidable_of_iff (a.entries = b.entries) ⟨fun h ↦ by cases a; cases b; cases h; rfl, fun h ↦ h ▸ rfl⟩

end Dictionary

end Upsert
