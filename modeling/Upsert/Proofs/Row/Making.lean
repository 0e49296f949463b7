import Upsert.Proofs.Row
import Upsert.Proofs.Text.Dictionary

namespace Upsert

abbrev Listing := List (String × Value)

namespace Listing

def names (l : Listing) : List String := l.map Prod.fst

def put (l : Listing) (c : String) (v : Value) : Listing :=
  if c ∈ l.names then l.map fun e ↦ if e.1 = c then (c, v) else e else l ++ [(c, v)]

def putAll (l entries : Listing) : Listing := entries.foldl (fun l e ↦ l.put e.1 e.2) l

def drop (l : Listing) (c : String) : Listing := l.filter fun e ↦ e.1 ≠ c

end Listing

/-- The ways to make a row. Pairs of a name and a value are collected as fields are. -/
inductive Making
  | new
  | set (m : Making) (c : String) (v : Value)
  | remove (m : Making) (c : String)
  | overlay (m other : Making)
  | ofFields (fields : List Field)

def Field.entry (f : Field) : String × Value := (f.name, f.value)

namespace Making

def row : Making → Row
  | new => .empty
  | set m c v => m.row.set c v
  | remove m c => m.row.erase c
  | overlay m other => m.row.overlay other.row
  | ofFields fields => .ofFields fields

def listing : Making → Listing
  | new => []
  | set m c v => m.listing.put c v
  | remove m c => m.listing.drop c
  | overlay m other => m.listing.putAll other.listing
  | ofFields fields => Listing.putAll [] (fields.map Field.entry)

theorem built (m : Making) : m.row.Built := by
  induction m with
  | new => exact .empty
  | set m c v ih => exact ih.set c v
  | remove m c ih => exact ih.erase c
  | overlay m other ih _ => exact ih.overlay other.row
  | ofFields fields => exact Row.built_ofFields fields

theorem nodup (m : Making) : m.row.columns.Nodup := Row.built_iff_nodup.1 m.built

end Making

namespace Row

variable {r : Row} {c : String}

def listing (r : Row) : Listing := r.fields.map Field.entry

theorem names_listing (r : Row) : r.listing.names = r.columns := by
  rw [Listing.names, listing, List.map_map]
  rfl

theorem contains_iff (r : Row) : r.contains c ↔ c ∈ r.columns := by
  rw [contains, columns, List.any_eq_true, List.mem_map]
  simp only [beq_iff_eq]

theorem lookup_listing (r : Row) (c : String) : r.listing.lookup c = r.get? c := by
  obtain ⟨fields⟩ := r
  induction fields with
  | nil => rfl
  | cons f fields ih =>
    rw [listing, List.map_cons, lookup_cons_eq_ite, get?_mk_cons, ← ih]
    exact if_congr eq_comm rfl rfl

theorem listing_set (h : r.columns.Nodup) (c : String) (v : Value) : (r.set c v).listing = r.listing.put c v := by
  rw [Listing.put, names_listing]
  split_ifs with hc
  · obtain ⟨fields⟩ := r
    simp only [columns] at h hc
    simp only [listing, set]
    induction fields with
    | nil => cases hc
    | cons f fields ih =>
      obtain ⟨hf, hfs⟩ := List.nodup_cons.1 h
      rw [setField, List.map_cons, List.map_cons]
      by_cases hn : f.name = c
      · have hrest : ∀ g ∈ fields, g.name ≠ c := by
          intro g hg he
          exact hf (hn ▸ he ▸ List.mem_map_of_mem hg)
        have hk : (fields.map Field.entry).map (fun e ↦ if e.1 = c then (c, v) else e) = fields.map Field.entry := by
          rw [List.map_map]
          exact List.map_congr_left fun g hg ↦ if_neg (hrest g hg)
        rw [if_pos hn, List.map_cons, hk]
        simp [Field.entry, hn]
      · have hcs : c ∈ fields.map Field.name := (List.mem_cons.1 hc).resolve_left (Ne.symm hn)
        rw [if_neg hn, List.map_cons, ih hfs hcs]
        simp [Field.entry, hn]
  · rw [set_of_notMem hc, listing, List.map_append]
    rfl

theorem listing_setAll (h : r.columns.Nodup) (fields : List Field) :
    (r.setAll fields).listing = r.listing.putAll (fields.map Field.entry) := by
  induction fields generalizing r with
  | nil => rfl
  | cons f fields ih =>
    rw [setAll, List.foldl_cons, ← setAll, ih (nodup_columns_set h f.name f.value), listing_set h]
    rfl

theorem listing_erase (h : r.columns.Nodup) (c : String) : (r.erase c).listing = r.listing.drop c := by
  rw [erase_eq_without h, listing, without, Listing.drop, listing, List.filter_map]
  congr 1
  apply List.filter_congr
  intro f _
  simp only [List.mem_singleton]
  rfl

theorem columns_set (r : Row) (c : String) (v : Value) :
    (r.set c v).columns = if c ∈ r.columns then r.columns else r.columns ++ [c] := by
  split_ifs with hc
  · exact columns_set_of_mem hc v
  · rw [set_of_notMem hc, columns, List.map_append]
    rfl

theorem setAll_concat (r : Row) (fields : List Field) (f : Field) :
    r.setAll (fields ++ [f]) = (r.setAll fields).set f.name f.value := setAll_append r fields [f]

theorem columns_setAll (r : Row) (fields : List Field) :
    (r.setAll fields).columns = r.columns ++ (fields.map Field.name).eraseDups.filter (· ∉ r.columns) := by
  induction fields using List.reverseRecOn with
  | nil => exact (List.append_nil _).symm
  | append_singleton fields f ih =>
    rw [setAll_concat, columns_set, ih, List.map_append, List.map_singleton, eraseDups_concat]
    by_cases hr : f.name ∈ r.columns <;> by_cases hf : f.name ∈ fields.map Field.name <;>
      simp [hr, hf, List.mem_eraseDups]

theorem get?_setAll (r : Row) (fields : List Field) (c : String) :
    (r.setAll fields).get? c = (get? ⟨fields.reverse⟩ c).or (r.get? c) := by
  induction fields using List.reverseRecOn with
  | nil => rfl
  | append_singleton fields f ih =>
    rw [setAll_concat, get?_set, ih, List.reverse_concat, get?_mk_cons]
    split_ifs
    · rfl
    · rfl

theorem get?_reverse (h : r.columns.Nodup) (c : String) : get? ⟨r.fields.reverse⟩ c = r.get? c := by
  have hr : ofFields r.fields = r := ofFields_of_nodup h
  have hc : (ofFields r.fields).get? c = (get? ⟨r.fields.reverse⟩ c).or (empty.get? c) := get?_setAll empty r.fields c
  rw [hr] at hc
  rw [hc]
  exact Option.or_none.symm

theorem get?_overlay {other : Row} (h : other.columns.Nodup) (c : String) :
    (r.overlay other).get? c = (other.get? c).or (r.get? c) := by
  rw [overlay, get?_setAll, get?_reverse h]

theorem columns_overlay {other : Row} (h : other.columns.Nodup) :
    (r.overlay other).columns = r.columns ++ other.columns.filter (· ∉ r.columns) := by
  rw [overlay, columns_setAll, ← columns, eraseDups_of_nodup h]

def AgreesBut (c : String) (r s : Row) : Prop :=
  (∀ d ≠ c, r.get? d = s.get? d) ∧ r.columns.filter (· ≠ c) = s.columns.filter (· ≠ c)

theorem agreesBut_set (r : Row) (c : String) (v : Value) : AgreesBut c (r.set c v) r := by
  constructor
  · intro d hd
    rw [get?_set, if_neg (Ne.symm hd)]
  · rw [columns_set]
    split_ifs
    · rfl
    · simp

theorem agreesBut_erase (h : r.columns.Nodup) (c : String) : AgreesBut c (r.erase c) r := by
  rw [erase_eq_without h]
  constructor
  · intro d hd
    rw [get?_without, if_neg (mt List.mem_singleton.1 hd)]
  · simp only [columns, without, List.filter_map, List.filter_filter]
    congr 1
    apply List.filter_congr
    intro f _
    simp

/-- The row has the fields of the list and answers every question as the list does. -/
structure Answers (r : Row) (l : Listing) : Prop where
  nodup : r.columns.Nodup
  fields : r.listing = l
  get? : ∀ c, r.get? c = l.lookup c
  get : ∀ c, r.get c = (l.lookup c).getD .null
  contains : ∀ c, r.contains c ↔ c ∈ l.names
  length : r.fields.length = l.length
  columns : r.columns = l.names

end Row

namespace Making

theorem listing_row (m : Making) : m.row.listing = m.listing := by
  induction m with
  | new => rfl
  | set m c v ih => rw [row, Row.listing_set m.nodup, ih, listing]
  | remove m c ih => rw [row, Row.listing_erase m.nodup, ih, listing]
  | overlay m other ih ih' =>
    rw [row, Row.overlay, Row.listing_setAll m.nodup, ih, listing, ← ih', Row.listing]
  | ofFields fields => exact Row.listing_setAll new.nodup fields

theorem answers (m : Making) : m.row.Answers m.listing := by
  have hn : m.row.columns = m.listing.names := by rw [← Row.names_listing, m.listing_row]
  have hg (c : String) : m.row.get? c = m.listing.lookup c := by rw [← Row.lookup_listing, m.listing_row]
  refine ⟨m.nodup, m.listing_row, hg, ?_, ?_, ?_, hn⟩
  · intro c
    rw [Row.get, hg]
  · intro c
    rw [← hn]
    exact m.row.contains_iff
  · rw [← m.listing_row, Row.listing, List.length_map]

/-- However a row is made, it is the list that was made alike. Setting or removing a column leaves all others as they
were, a row that is laid over another wins and adds its new columns behind, and of several fields of one column the
first gives the place and the last the value. -/
theorem insertion_ordered (m other : Making) (fields : List Field) (c : String) (v : Value) :
    m.row.Answers m.listing ∧
    (m.row.set c v).AgreesBut c m.row ∧ (m.row.erase c).AgreesBut c m.row ∧
    (∀ d, (m.row.overlay other.row).get? d = (other.row.get? d).or (m.row.get? d)) ∧
    (m.row.overlay other.row).columns = m.row.columns ++ other.row.columns.filter (· ∉ m.row.columns) ∧
    (∀ d, (Row.ofFields fields).get? d = (fields.reverse.find? fun f ↦ f.name == d).map Field.value) ∧
    (Row.ofFields fields).columns = (fields.map Field.name).eraseDups := by
  refine ⟨m.answers, Row.agreesBut_set m.row c v, Row.agreesBut_erase m.nodup c, Row.get?_overlay other.nodup,
    Row.columns_overlay other.nodup, ?_, ?_⟩
  · intro d
    exact (Row.get?_setAll .empty fields d).trans Option.or_none
  · exact (Row.columns_setAll .empty fields).trans (List.filter_eq_self.2 fun _ _ ↦ rfl)

end Making

end Upsert
