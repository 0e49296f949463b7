import Mathlib.Data.List.Nodup
import Mathlib.Data.List.ReduceOption
import Upsert.Connection.Error
import Upsert.Proofs.Sql.Evaluation

namespace Upsert.Sql

structure Storage where
  rows : List Row
  proposals : Nat

structure Slot where
  row : Row
  touched : Bool

structure Server where
  meaning : Meaning
  /-- What the columns of a proposed row hold that are not sent, such as the next value of a sequence. -/
  defaults : Nat → Row
  /-- The order in which the rows of a statement come back. -/
  order : Nat → List Row → List Row
  order_perm : ∀ n rows, (order n rows).Perm rows
  /-- Do a stored row and a proposed one violate a constraint, or any one? -/
  violates : Option String → Row → Row → Bool
  refusal : DbError

def Scene.alone (r : Row) : Scene := ⟨"", r, r⟩

def returnedFields (m : Meaning) (r : Row) : Term → List Field
  | .column _ name => [⟨name, r.get name⟩]
  | .labelled e name => [⟨name, e.eval m (.alone r)⟩]
  | .verbatim s => if s = "*" then r.columns.map fun c ↦ ⟨c, r.get c⟩ else [⟨"", .null⟩]
  | e => [⟨"", e.eval m (.alone r)⟩]

def returnedRow (m : Meaning) (es : List Term) (r : Row) : Row := .ofFields (es.flatMap (returnedFields m r))

namespace Server

variable (s : Server) (i : Insert)

def holds (scene : Scene) (condition : Option Term) : Bool :=
  condition.all fun e ↦ Truth.ofValue (e.eval s.meaning scene) == some true

/-- Values that are null are not equal to any other. -/
def conflicts (arbiter : Option Arbiter) (e p : Row) : Bool :=
  match arbiter with
  | some (.index terms predicate) =>
    s.holds (.alone e) predicate && s.holds (.alone p) predicate && terms.all fun t ↦
      !(t.eval s.meaning (.alone e)).isNull && t.eval s.meaning (.alone e) == t.eval s.meaning (.alone p)
  | some (.constraint name) => s.violates (some name) e p
  | none => s.violates none e p

/-- What becomes of a stored row when another one conflicts with it. No row is updated twice. -/
def meet (x : Slot) (p : Row) : Option Slot :=
  match i.onConflict.map OnConflict.reaction with
  | none => none
  | some .nothing => some x
  | some (.update settings condition) =>
    let scene : Scene := ⟨i.table.name, x.row, p⟩
    if x.touched then none
    else if s.holds scene condition then some ⟨updated s.meaning scene settings, true⟩
    else some x

/-- A proposed row meets the first row with which it conflicts, or is stored behind all others. -/
def offer (p : Row) : List Slot → Option (List Slot)
  | [] => some [⟨p, true⟩]
  | x :: xs =>
    if s.conflicts (i.onConflict.bind OnConflict.arbiter) x.row p then (s.meet i x p).map (· :: xs)
    else (offer p xs).map (x :: ·)

def offerAll : List Slot → List Row → Option (List Slot)
  | xs, [] => some xs
  | xs, p :: ps => (s.offer i p xs).bind fun xs' ↦ offerAll xs' ps

def proposed (n : Nat) (row : List Term) : Row :=
  (s.defaults n).setAll (i.columns.zipWith Field.mk (row.map (Term.eval s.meaning (.alone .empty))))

def proposals (n : Nat) : List Row := i.rows.mapIdx fun k row ↦ s.proposed i (n + k) row

def execute (st : Storage) : Except DbError (List Row) × Storage :=
  match s.offerAll i (st.rows.map (⟨·, false⟩)) (s.proposals i st.proposals) with
  | none => (.error s.refusal, st)
  | some xs =>
    (.ok (s.order st.proposals ((xs.filter Slot.touched).map fun x ↦ returnedRow s.meaning i.returning x.row)),
      ⟨xs.map Slot.row, st.proposals + i.rows.length⟩)

variable {s i} {p : Row} {xs ys : List Slot} {x : Slot}

theorem offer_of_fresh (h : ∀ x ∈ xs, s.conflicts (i.onConflict.bind OnConflict.arbiter) x.row p = false) :
    s.offer i p xs = some (xs ++ [⟨p, true⟩]) := by
  induction xs with
  | nil => rfl
  | cons x xs ih =>
    obtain ⟨hx, hxs⟩ := List.forall_mem_cons.1 h
    rw [offer, hx, ih hxs]
    rfl

theorem offer_of_conflict (h : ∀ x ∈ xs, s.conflicts (i.onConflict.bind OnConflict.arbiter) x.row p = false)
    (hx : s.conflicts (i.onConflict.bind OnConflict.arbiter) x.row p = true) :
    s.offer i p (xs ++ x :: ys) = (s.meet i x p).map fun x' ↦ xs ++ x' :: ys := by
  induction xs with
  | nil => rw [List.nil_append, offer, if_pos hx]; rfl
  | cons y xs ih =>
    obtain ⟨hy, hxs⟩ := List.forall_mem_cons.1 h
    rw [List.cons_append, offer, hy, ih hxs]
    cases s.meet i x p <;> rfl

section

open Classical

variable {K : Type} (κ : Row → Option K) (f : Row → Row → Slot)

noncomputable def settled (ps : List Row) (x : Slot) : Slot :=
  (ps.find? fun p ↦ κ p = κ x.row).elim x (f x.row)

abbrev keys (xs : List Slot) : List (Option K) := xs.map fun x ↦ κ x.row

noncomputable def fresh (ks : List (Option K)) (ps : List Row) : List Slot :=
  (ps.filter fun p ↦ κ p ∉ ks).map (⟨·, true⟩)

noncomputable def after (ps : List Row) (xs : List Slot) : List Slot :=
  xs.map (settled κ f ps) ++ fresh κ (keys κ xs) ps

/-- Rows that have a key, which decides what they conflict with; and what becomes of a stored row of that key, which
keeps it. -/
structure Keyed (s : Server) (i : Insert) (ps : List Row) : Prop where
  isSome : ∀ p ∈ ps, (κ p).isSome
  nodup : (ps.map κ).Nodup
  conflicts_iff : ∀ p ∈ ps, ∀ e, s.conflicts (i.onConflict.bind OnConflict.arbiter) e p ↔ κ e = κ p
  meet_eq : ∀ p ∈ ps, ∀ e, κ e = κ p → s.meet i ⟨e, false⟩ p = some (f e p)
  key_eq : ∀ p ∈ ps, ∀ e, κ e = κ p → κ (f e p).row = κ e

variable {κ f} {ps : List Row}

theorem Keyed.tail (h : Keyed κ f s i (p :: ps)) : Keyed κ f s i ps where
  isSome q hq := h.isSome q (List.mem_cons_of_mem p hq)
  nodup := (List.nodup_cons.1 h.nodup).2
  conflicts_iff q hq := h.conflicts_iff q (List.mem_cons_of_mem p hq)
  meet_eq q hq := h.meet_eq q (List.mem_cons_of_mem p hq)
  key_eq q hq := h.key_eq q (List.mem_cons_of_mem p hq)

theorem settled_of_notMem (h : κ x.row ∉ ps.map κ) : settled κ f ps x = x := by
  have hn : (ps.find? fun p ↦ κ p = κ x.row) = none := by
    rw [List.find?_eq_none]
    intro p hp he
    exact h (List.mem_map.2 ⟨p, hp, by simpa using he⟩)
  rw [settled, hn, Option.elim_none]

theorem settled_cons (h : κ p ≠ κ x.row) : settled κ f (p :: ps) x = settled κ f ps x := by
  rw [settled, settled, List.find?_cons_of_neg (by simpa using h)]

theorem map_settled_cons (h : ∀ x ∈ xs, κ x.row ≠ κ p) : xs.map (settled κ f (p :: ps)) = xs.map (settled κ f ps) :=
  List.map_congr_left fun x hx ↦ settled_cons (h x hx).symm

theorem settled_cons_self (h : κ p = κ x.row) : settled κ f (p :: ps) x = f x.row p := by
  rw [settled, List.find?_cons_of_pos (by simpa using h), Option.elim_some]

theorem fresh_cons_of_mem {ks : List (Option K)} (h : κ p ∈ ks) : fresh κ ks (p :: ps) = fresh κ ks ps := by
  rw [fresh, fresh, List.filter_cons_of_neg (by simpa using h)]

theorem fresh_cons_of_notMem {ks : List (Option K)} (h : κ p ∉ ks) (hp : κ p ∉ ps.map κ) :
    fresh κ ks (p :: ps) = ⟨p, true⟩ :: fresh κ (ks ++ [κ p]) ps := by
  have hk : ps.filter (fun q ↦ κ q ∉ ks) = ps.filter fun q ↦ κ q ∉ ks ++ [κ p] := by
    refine List.filter_congr fun q hq ↦ ?_
    have hne : κ q ≠ κ p := fun he ↦ hp (he ▸ List.mem_map_of_mem hq)
    simp [hne]
  rw [fresh, fresh, List.filter_cons_of_pos (by simpa using h), List.map_cons, hk]

theorem ne_of_nodup_keys {k : K} (h : (keys κ (xs ++ x :: ys)).reduceOption.Nodup) (hk : κ x.row = some k) :
    (∀ y ∈ xs, κ y.row ≠ some k) ∧ ∀ y ∈ ys, κ y.row ≠ some k := by
  have hm : keys κ (xs ++ x :: ys) = keys κ xs ++ some k :: keys κ ys := by simp [keys, hk]
  rw [hm, List.reduceOption_append, List.reduceOption_cons_of_some] at h
  obtain ⟨-, hys, hd⟩ := List.nodup_append.1 h
  constructor
  · intro y hy he
    have hm : k ∈ (keys κ xs).reduceOption := List.reduceOption_mem_iff.2 (he ▸ List.mem_map_of_mem hy)
    exact hd k hm k List.mem_cons_self rfl
  · intro y hy he
    have hm : k ∈ (keys κ ys).reduceOption := List.reduceOption_mem_iff.2 (he ▸ List.mem_map_of_mem hy)
    exact (List.nodup_cons.1 hys).1 hm

theorem settled_cases (κ : Row → Option K) (f : Row → Row → Slot) (ps : List Row) (x : Slot) :
    κ x.row ∉ ps.map κ ∧ settled κ f ps x = x ∨ ∃ p ∈ ps, κ p = κ x.row ∧ settled κ f ps x = f x.row p := by
  cases hf : ps.find? fun p ↦ κ p = κ x.row with
  | none =>
    have hn : κ x.row ∉ ps.map κ := by
      intro hm
      obtain ⟨p, hp, he⟩ := List.mem_map.1 hm
      exact absurd he (by simpa using List.find?_eq_none.1 hf p hp)
    exact .inl ⟨hn, settled_of_notMem hn⟩
  | some p =>
    have hk : κ p = κ x.row := by simpa using List.find?_some hf
    exact .inr ⟨p, List.mem_of_find?_eq_some hf, hk, by rw [settled, hf, Option.elim_some]⟩

theorem nodup_append_keys {ks ls : List (Option K)} (hk : ks.reduceOption.Nodup) (hl : ls.Nodup)
    (hn : ∀ l ∈ ls, l ∉ ks) : (ks ++ ls).reduceOption.Nodup := by
  rw [List.reduceOption_append]
  refine List.nodup_append.2 ⟨hk, hl.filterMap fun _ _ _ hb hb' ↦ hb.trans hb'.symm, ?_⟩
  rintro k hk _ hl rfl
  exact hn _ (List.reduceOption_mem_iff.1 hl) (List.reduceOption_mem_iff.1 hk)

/-- Slots in front of rows: no two have one key, and the keys of those that were touched do not come again. -/
structure Ready (κ : Row → Option K) (ps : List Row) (xs : List Slot) : Prop where
  unique : (keys κ xs).reduceOption.Nodup
  untouched : ∀ x ∈ xs, x.touched = true → κ x.row ∉ ps.map κ

theorem Keyed.conflicts_eq_false (h : Keyed κ f s i (p :: ps)) {e : Row} (he : κ e ≠ κ p) :
    s.conflicts (i.onConflict.bind OnConflict.arbiter) e p = false :=
  Bool.eq_false_iff.2 (mt (h.conflicts_iff p List.mem_cons_self e).1 he)

theorem Ready.offer_of_mem (hx : Ready κ (p :: ps) xs) (h : Keyed κ f s i (p :: ps)) (hf : κ p ∈ keys κ xs) :
    ∃ xs', s.offer i p xs = some xs' ∧ Ready κ ps xs' ∧ after κ f ps xs' = after κ f (p :: ps) xs := by
  obtain ⟨hp, -⟩ := List.nodup_cons.1 h.nodup
  obtain ⟨k, hk⟩ := Option.isSome_iff_exists.1 (h.isSome p List.mem_cons_self)
  obtain ⟨⟨e, touched⟩, hm, he⟩ := List.mem_map.1 hf
  have he : κ e = κ p := he
  obtain ⟨l, r, rfl⟩ := List.append_of_mem hm
  -- It is the only slot of its key, so the row meets no other.
  obtain ⟨hl, hr⟩ := ne_of_nodup_keys hx.unique (he.trans hk)
  rw [← hk] at hl hr
  -- The keys of slots that were touched do not come again.
  obtain rfl : touched = false := Bool.eq_false_iff.2 fun ht ↦ hx.untouched _ hm ht (he ▸ List.mem_cons_self)
  have hc : s.conflicts (i.onConflict.bind OnConflict.arbiter) e p := (h.conflicts_iff p List.mem_cons_self e).2 he
  have hkey : κ (f e p).row = κ e := h.key_eq p List.mem_cons_self e he
  have hkeys : keys κ (l ++ f e p :: r) = keys κ (l ++ ⟨e, false⟩ :: r) := by simp [keys, hkey]
  refine ⟨l ++ f e p :: r, ?_, ⟨hkeys ▸ hx.unique, ?_⟩, ?_⟩
  · rw [offer_of_conflict (fun y hy ↦ h.conflicts_eq_false (hl y hy)) hc, h.meet_eq p List.mem_cons_self e he,
      Option.map_some]
  · have hold {y : Slot} (hy : y ∈ l ++ ⟨e, false⟩ :: r) (ht : y.touched = true) : κ y.row ∉ ps.map κ :=
      mt (List.mem_cons_of_mem (κ p)) (hx.untouched y hy ht)
    intro y hy
    rcases List.mem_append.1 hy with hy | hy
    · exact hold (List.mem_append_left _ hy)
    · rcases List.mem_cons.1 hy with rfl | hy
      · exact fun _ ↦ hkey.trans he ▸ hp
      · exact hold (List.mem_append_right _ (List.mem_cons_of_mem _ hy))
  · have hs : settled κ f ps (f e p) = f e p := settled_of_notMem (hkey.trans he ▸ hp)
    have hs' : settled κ f (p :: ps) ⟨e, false⟩ = f e p := settled_cons_self he.symm
    rw [after, after, hkeys, fresh_cons_of_mem hf, List.map_append, List.map_append, List.map_cons, List.map_cons,
      map_settled_cons hl, map_settled_cons hr, hs, hs']

theorem Ready.offer_of_notMem (hx : Ready κ (p :: ps) xs) (h : Keyed κ f s i (p :: ps)) (hf : κ p ∉ keys κ xs) :
    ∃ xs', s.offer i p xs = some xs' ∧ Ready κ ps xs' ∧ after κ f ps xs' = after κ f (p :: ps) xs := by
  obtain ⟨hp, -⟩ := List.nodup_cons.1 h.nodup
  have hne : ∀ x ∈ xs, κ x.row ≠ κ p := fun x hx he ↦ hf (List.mem_map.2 ⟨x, hx, he⟩)
  have hkeys : keys κ (xs ++ [⟨p, true⟩]) = keys κ xs ++ [κ p] := List.map_append
  refine ⟨xs ++ [⟨p, true⟩], offer_of_fresh fun x hx ↦ h.conflicts_eq_false (hne x hx), ⟨?_, ?_⟩, ?_⟩
  · rw [hkeys]
    refine nodup_append_keys hx.unique (List.nodup_singleton _) fun k hk ↦ ?_
    rwa [List.mem_singleton.1 hk]
  · intro y hy
    rcases List.mem_append.1 hy with hy | hy
    · exact fun ht ↦ mt (List.mem_cons_of_mem (κ p)) (hx.untouched y hy ht)
    · rw [List.mem_singleton.1 hy]
      exact fun _ ↦ hp
  · have hs : settled κ f ps ⟨p, true⟩ = ⟨p, true⟩ := settled_of_notMem hp
    rw [after, after, hkeys, fresh_cons_of_notMem hf hp, List.map_append, map_settled_cons hne, List.map_singleton,
      hs, List.append_assoc]
    rfl

theorem offerAll_eq (h : Keyed κ f s i ps) (hx : Ready κ ps xs) : s.offerAll i xs ps = some (after κ f ps xs) := by
  induction ps generalizing xs with
  | nil =>
    have hs : xs.map (settled κ f []) = xs := List.map_id'' (fun x ↦ settled_of_notMem (by simp)) xs
    rw [offerAll, after, hs]
    exact congrArg some (List.append_nil xs).symm
  | cons p ps ih =>
    obtain ⟨xs', ho, hx', ha⟩ : ∃ xs', s.offer i p xs = some xs' ∧ Ready κ ps xs' ∧
        after κ f ps xs' = after κ f (p :: ps) xs := by
      by_cases hf : κ p ∈ keys κ xs
      · exact hx.offer_of_mem h hf
      · exact hx.offer_of_notMem h hf
    rw [offerAll, ho, Option.bind_some, ih h.tail hx', ha]

theorem keys_settled (h : Keyed κ f s i ps) (xs : List Slot) : keys κ (xs.map (settled κ f ps)) = keys κ xs := by
  rw [keys, List.map_map]
  refine List.map_congr_left fun x _ ↦ ?_
  rcases settled_cases κ f ps x with ⟨-, hs⟩ | ⟨p, hp, hk, hs⟩
  · exact congrArg (fun x ↦ κ (Slot.row x)) hs
  · exact (congrArg (fun x ↦ κ (Slot.row x)) hs).trans (h.key_eq p hp x.row hk.symm)

theorem mem_fresh {ks : List (Option K)} : x ∈ fresh κ ks ps ↔ ∃ p ∈ ps, κ p ∉ ks ∧ x = ⟨p, true⟩ := by
  simp only [fresh, List.mem_map, List.mem_filter, decide_eq_true_eq]
  constructor
  · rintro ⟨p, ⟨hp, hk⟩, rfl⟩
    exact ⟨p, hp, hk, rfl⟩
  · rintro ⟨p, hp, hk, rfl⟩
    exact ⟨p, ⟨hp, hk⟩, rfl⟩

theorem nodup_keys_fresh (h : (ps.map κ).Nodup) (ks : List (Option K)) : (keys κ (fresh κ ks ps)).Nodup := by
  rw [keys, fresh, List.map_map]
  exact h.sublist (List.filter_sublist.map κ)

theorem mem_after_cases (hx : x ∈ after κ f ps xs) : (∃ y ∈ xs, κ y.row ∉ ps.map κ ∧ x = y) ∨
    (∃ y ∈ xs, ∃ p ∈ ps, κ p = κ y.row ∧ x = f y.row p) ∨ ∃ p ∈ ps, κ p ∉ keys κ xs ∧ x = ⟨p, true⟩ := by
  rcases List.mem_append.1 hx with hx | hx
  · obtain ⟨y, hy, rfl⟩ := List.mem_map.1 hx
    rcases settled_cases κ f ps y with ⟨hn, hs⟩ | ⟨p, hp, hk, hs⟩
    · exact .inl ⟨y, hy, hn, hs⟩
    · exact .inr (.inl ⟨y, hy, p, hp, hk, hs⟩)
  · exact .inr (.inr (mem_fresh.1 hx))

theorem nodup_keys (h : Keyed κ f s i ps) (hx : (keys κ xs).reduceOption.Nodup) :
    (keys κ (after κ f ps xs)).reduceOption.Nodup := by
  have ha : keys κ (after κ f ps xs) = keys κ xs ++ keys κ (fresh κ (keys κ xs) ps) := by
    rw [keys, after, List.map_append]
    exact congrArg (· ++ _) (keys_settled h xs)
  rw [ha]
  refine nodup_append_keys hx (nodup_keys_fresh h.nodup _) fun k hk ↦ ?_
  obtain ⟨x, hm, rfl⟩ := List.mem_map.1 hk
  obtain ⟨p, -, hn, rfl⟩ := mem_fresh.1 hm
  exact hn

theorem mem_keys (h : Keyed κ f s i ps) (xs : List Slot) {p : Row} (hp : p ∈ ps) :
    κ p ∈ keys κ (after κ f ps xs) := by
  rw [keys, after, List.map_append, List.mem_append]
  by_cases hk : κ p ∈ keys κ xs
  · rw [← keys_settled h xs] at hk
    exact .inl hk
  · exact .inr (List.mem_map_of_mem (f := fun x : Slot ↦ κ x.row) (mem_fresh.2 ⟨p, hp, hk, rfl⟩))

end

end Server

end Upsert.Sql
