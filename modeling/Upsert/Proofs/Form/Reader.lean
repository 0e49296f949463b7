import Upsert.Proofs.Except
import Upsert.Proofs.Json.Reading
import Upsert.Proofs.Text.Dictionary

namespace Upsert

namespace Json

mutual

def depth : Json → Nat
  | .null | .boolean _ | .number _ | .string _ => 0
  | .array xs => depthOfItems xs + 1
  | .object ms => depthOfMembers ms + 1

def depthOfItems : List Json → Nat
  | [] => 0
  | x :: xs => max x.depth (depthOfItems xs)

def depthOfMembers : List (String × Json) → Nat
  | [] => 0
  | (_, x) :: ms => max x.depth (depthOfMembers ms)

end

theorem depthOfItems_le_iff {xs : List Json} {n : Nat} : depthOfItems xs ≤ n ↔ ∀ x ∈ xs, x.depth ≤ n := by
  induction xs with
  | nil => simp [depthOfItems]
  | cons x xs ih => rw [depthOfItems, Nat.max_le, List.forall_mem_cons, ih]

theorem depthOfMembers_le_iff {ms : List (String × Json)} {n : Nat} :
    depthOfMembers ms ≤ n ↔ ∀ e ∈ ms, e.2.depth ≤ n := by
  induction ms with
  | nil => simp [depthOfMembers]
  | cons e ms ih => rw [depthOfMembers, Nat.max_le, List.forall_mem_cons, ih]

theorem exists_of_depth_array_le {xs : List Json} {n : Nat} (h : (Json.array xs).depth ≤ n) :
    ∃ m, n = m + 1 ∧ ∀ x ∈ xs, x.depth ≤ m := by
  rw [depth] at h
  exact ⟨n - 1, by omega, depthOfItems_le_iff.1 (by omega)⟩

theorem exists_of_depth_object_le {ms : List (String × Json)} {n : Nat} (h : (Json.object ms).depth ≤ n) :
    ∃ m, n = m + 1 ∧ ∀ e ∈ ms, e.2.depth ≤ m := by
  rw [depth] at h
  exact ⟨n - 1, by omega, depthOfMembers_le_iff.1 (by omega)⟩

/-- Documents as they are kept: their objects have no member twice and all in order. -/
inductive Exact : Json → Prop
  | null : Exact .null
  | boolean (b : Bool) : Exact (.boolean b)
  | int {n : Int} (hl : -(pow2 63 : Int) ≤ n) (hh : n < pow2 64) : Exact (.number (.int n))
  | string (s : String) : Exact (.string s)
  | array {xs : List Json} (h : ∀ x ∈ xs, Exact x) : Exact (.array xs)
  | object {ms : List (String × Json)} (ha : Ascending ms) (h : ∀ e ∈ ms, Exact e.2) : Exact (.object ms)

theorem Exact.whole {j : Json} (h : j.Exact) : j.Whole := by
  induction h with
  | null => exact .null
  | boolean b => exact .boolean b
  | int hl hh => exact .int hl hh
  | string s => exact .string s
  | array _ ih => exact .array ih
  | object _ _ ih => exact .object ih

end Json

namespace Reader

variable {α β : Type} {r : Reader α} {j : Json} {p : α → Prop} {q : β → Prop}

/-- Wherever a text has room for the tree, the reader reads it, and what it gives has the property. -/
def Reads (r : Reader α) (j : Json) (p : α → Prop) : Prop :=
  ∀ depth, j.depth ≤ depth → depth ≤ Outline.maxDepth → ∃ a, r depth (Outline.ofJson j) = .ok a ∧ p a

theorem Reads.imp {p' : α → Prop} (h : r.Reads j p) (hp : ∀ a, p a → p' a) : r.Reads j p' := by
  intro depth hd hm
  obtain ⟨a, ha, hpa⟩ := h depth hd hm
  exact ⟨a, ha, hp a hpa⟩

theorem Reads.map {f : α → β} (h : r.Reads j p) (hf : ∀ a, p a → q (f a)) : (r.map f).Reads j q := by
  intro depth hd hm
  obtain ⟨a, ha, hpa⟩ := h depth hd hm
  exact ⟨f a, Except.map_eq_ok_iff.2 ⟨a, ha, rfl⟩, hf a hpa⟩

theorem Reads.map_eq {a : α} (h : r.Reads j (· = a)) (f : α → β) : (r.map f).Reads j (· = f a) :=
  h.map fun _ ha ↦ congrArg f ha

theorem Reads.beq [BEq α] [ReflBEq α] {a : α} (h : r.Reads j (· = a)) : r.Reads j (· == a) :=
  h.imp fun _ ha ↦ beq_of_eq ha

theorem Reads.filterMap {f : α → Option β} (h : r.Reads j p) (hf : ∀ a, p a → ∃ b, f a = some b ∧ q b) :
    (r.filterMap f).Reads j q := by
  intro depth hd hm
  obtain ⟨a, ha, hpa⟩ := h depth hd hm
  obtain ⟨b, hb, hqb⟩ := hf a hpa
  refine ⟨b, Except.bind_eq_ok_iff.2 ⟨a, ha, ?_⟩, hqb⟩
  rw [hb]
  rfl

theorem string_reads (s : String) : string.Reads (.string s) (· = s) := fun _ _ _ ↦ ⟨s, rfl, rfl⟩

theorem boolean_reads (b : Bool) : boolean.Reads (.boolean b) (· = b) := fun _ _ _ ↦ ⟨b, rfl, rfl⟩

theorem number_reads (n : JsonNumber) : number.Reads (.number n) (· = n) := fun _ _ _ ↦ ⟨n, rfl, rfl⟩

theorem int64_reads (n : Int64) : int64.Reads (.int64 n) (· = n) := by
  refine (number_reads _).filterMap ?_
  rintro _ rfl
  have hl := n.minValue_le_toInt
  have hh := n.toInt_le
  refine ⟨n, ?_, rfl⟩
  rw [JsonNumber.toInt64?, if_pos ⟨hl, hh⟩, Int64.ofInt_toInt]

theorem octet_reads (o : UInt8) : octet.Reads (.number (.int o.toNat)) (· = o) := by
  refine (number_reads _).filterMap ?_
  rintro _ rfl
  have ho := o.toNat_lt
  refine ⟨o, ?_, rfl⟩
  simp only
  rw [if_pos ⟨by omega, by omega⟩, Int.toNat_natCast, UInt8.ofNat_toNat]

theorem optional_of_ne_null (h : j ≠ .null) (depth : Nat) :
    r.optional depth (Outline.ofJson j) = some <$> r depth (Outline.ofJson j) := by
  cases j <;> first | rfl | exact absurd rfl h

theorem optional_reads {R : α → β → Prop} {form : β → Json} {o : Option β}
    (h : ∀ b ∈ o, form b ≠ .null ∧ r.Reads (form b) (R · b)) :
    r.optional.Reads (o.elim .null form) (Option.Rel R · o) := by
  intro depth hd hm
  cases o with
  | none => exact ⟨none, rfl, .none⟩
  | some b =>
    obtain ⟨hn, hr⟩ := h b rfl
    obtain ⟨a, ha, hab⟩ := hr depth hd hm
    refine ⟨some a, ?_, .some hab⟩
    rw [Option.elim_some, optional_of_ne_null hn, ha]
    rfl

theorem optional_reads_eq {form : α → Json} {o : Option α} (h : ∀ a ∈ o, form a ≠ .null ∧ r.Reads (form a) (· = a)) :
    r.optional.Reads (o.elim .null form) (· = o) := by
  apply (optional_reads h).imp
  intro o' ho
  cases ho with
  | none => rfl
  | some ha => rw [ha]

theorem optional_reads_beq [BEq α] {form : α → Json} {o : Option α}
    (h : ∀ a ∈ o, form a ≠ .null ∧ r.Reads (form a) (· == a)) : r.optional.Reads (o.elim .null form) (· == o) := by
  apply (optional_reads h).imp
  intro o' ho
  cases ho with
  | none => rfl
  | some ha => exact ha

theorem exists_listItems {R : α → β → Prop} {form : β → Json} {bs : List β} (h : ∀ b ∈ bs, r.Reads (form b) (R · b))
    {depth : Nat} (hd : ∀ b ∈ bs, (form b).depth ≤ depth) (hm : depth ≤ Outline.maxDepth) :
    ∃ as, listItems r depth (Outline.itemsOfJson (bs.map form)) = .ok as ∧ List.Forall₂ R as bs := by
  induction bs with
  | nil => exact ⟨[], rfl, .nil⟩
  | cons b bs ih =>
    obtain ⟨hb, hbs⟩ := List.forall_mem_cons.1 h
    obtain ⟨hdb, hds⟩ := List.forall_mem_cons.1 hd
    obtain ⟨a, ha, hab⟩ := hb depth hdb hm
    obtain ⟨as, has, hr⟩ := ih hbs hds
    refine ⟨a :: as, ?_, .cons hab hr⟩
    rw [List.map_cons, Outline.itemsOfJson, listItems, ha, Except.ok_bind, has]
    rfl

theorem list_reads {R : α → β → Prop} {form : β → Json} {bs : List β} (h : ∀ b ∈ bs, r.Reads (form b) (R · b)) :
    r.list.Reads (.array (bs.map form)) (List.Forall₂ R · bs) := by
  intro depth hd hm
  obtain ⟨depth, rfl, hx⟩ := Json.exists_of_depth_array_le hd
  exact exists_listItems h (List.forall_mem_map.1 hx) (by omega)

theorem list_reads_eq {form : α → Json} {as : List α} (h : ∀ a ∈ as, r.Reads (form a) (· = a)) :
    r.list.Reads (.array (as.map form)) (· = as) := by
  apply (list_reads h).imp
  intro bs hbs
  exact List.forall₂_eq_eq_eq ▸ hbs

theorem beq_of_forall₂ [BEq α] {as bs : List α} (h : List.Forall₂ (· == ·) as bs) : as == bs := by
  induction h with
  | nil => rfl
  | cons ha _ ih =>
    rw [List.cons_beq_cons, Bool.and_eq_true]
    exact ⟨ha, ih⟩

theorem list_reads_beq [BEq α] {form : α → Json} {as : List α} (h : ∀ a ∈ as, r.Reads (form a) (· == a)) :
    r.list.Reads (.array (as.map form)) (· == as) := (list_reads h).imp fun _ ↦ beq_of_forall₂

theorem mapMembers_eq {form : β → Json} {g : β → α} {entries : List (String × β)} {depth : Nat}
    (h : ∀ e ∈ entries, r depth (Outline.ofJson (form e.2)) = .ok (g e.2)) (before : Dictionary α) :
    mapMembers r depth before (Outline.membersOfJson (entries.map fun e ↦ (e.1, form e.2))) =
      .ok ((entries.map fun e ↦ (e.1, g e.2)).foldl (fun d e ↦ d.insert e.1 e.2) before) := by
  induction entries generalizing before with
  | nil => rfl
  | cons e entries ih =>
    obtain ⟨he, h⟩ := List.forall_mem_cons.1 h
    rw [List.map_cons, Outline.membersOfJson, mapMembers, Except.ok_bind, he, Except.ok_bind, ih h]
    rfl

theorem dictionary_reads {form : α → Json} {d : Dictionary α}
    (h : ∀ e ∈ d.entries, r.Reads (form e.2) (· = e.2)) :
    r.dictionary.Reads (.object (d.entries.map fun e ↦ (e.1, form e.2))) (· = d) := by
  intro depth hd hm
  obtain ⟨depth, rfl, he⟩ := Json.exists_of_depth_object_le hd
  have hr : ∀ e ∈ d.entries, r depth (Outline.ofJson (form e.2)) = .ok (id e.2) := by
    intro e hmem
    obtain ⟨a, ha, rfl⟩ := h e hmem depth (List.forall_mem_map.1 he e hmem) (by omega)
    exact ha
  have hk := mapMembers_eq hr .empty
  simp only [id, Prod.mk.eta, List.map_id'] at hk
  refine ⟨d, hk.trans ?_, rfl⟩
  exact congrArg Except.ok d.ofList_entries

theorem tagged_alone_reads {payloads : List (String × Payload α)} {tag : String} {a : α}
    (h : payloads.lookup tag = some (.none a)) : (tagged payloads).Reads (.string tag) (· = a) := by
  intro depth _ _
  refine ⟨a, ?_, rfl⟩
  show (lookUp payloads tag >>= Payload.readAlone) = _
  rw [lookUp, h]
  rfl

theorem tagged_reads {payloads : List (String × Payload α)} {tag : String}
    (ht : payloads.lookup tag = some (.content r)) (h : r.Reads j p) :
    (tagged payloads).Reads (.object [(tag, j)]) p := by
  intro depth hd hm
  obtain ⟨depth, rfl, he⟩ := Json.exists_of_depth_object_le hd
  obtain ⟨a, ha, hpa⟩ := h depth (he _ List.mem_cons_self) (by omega)
  refine ⟨a, ?_, hpa⟩
  rw [Outline.ofJson, Outline.membersOfJson, tagged, Except.ok_bind, lookUp, ht, Option.elim_some, Except.ok_bind,
    Payload.readContent, ha]
  rfl

theorem word_reads {words : List (String × α)} {w : String} {a : α} (h : words.lookup w = some a) :
    (word words).Reads (.string w) (· = a) := by
  apply tagged_alone_reads
  induction words with
  | nil => cases h
  | cons e words ih =>
    rw [lookup_cons_eq_ite] at h
    rw [List.map_cons, lookup_cons_eq_ite]
    split_ifs at h ⊢ with hw
    · cases h
      rfl
    · exact ih h

theorem documents_eq {xs : List Json} {depth : Nat} (h : ∀ x ∈ xs, Outline.document depth (Outline.ofJson x) = .ok x) :
    Outline.documents depth (Outline.itemsOfJson xs) = .ok xs := by
  induction xs with
  | nil => rfl
  | cons x xs ih =>
    obtain ⟨hx, hxs⟩ := List.forall_mem_cons.1 h
    rw [Outline.itemsOfJson, Outline.documents, hx, Except.ok_bind, ih hxs]
    rfl

theorem documentMembers_eq (before : List (String × Json)) {ms : List (String × Json)} {depth : Nat} (ha : Ascending (before ++ ms))
    (h : ∀ e ∈ ms, Outline.document depth (Outline.ofJson e.2) = .ok e.2) :
    Outline.documentMembers depth before (Outline.membersOfJson ms) = .ok (before ++ ms) := by
  induction ms generalizing before with
  | nil =>
    rw [List.append_nil]
    rfl
  | cons e ms ih =>
    obtain ⟨he, hms⟩ := List.forall_mem_cons.1 h
    have hb : ∀ b ∈ before, b.1 < e.1 := fun b hb ↦ (List.pairwise_append.1 ha).2.2 b hb e List.mem_cons_self
    rw [List.append_cons] at ha ⊢
    rw [Outline.membersOfJson, Outline.documentMembers, Except.ok_bind, he, Except.ok_bind,
      insertEntry_of_forall_lt hb, ih _ ha hms]

theorem document_reads {j : Json} (h : j.Exact) : Reads Outline.document j (· = j) := by
  have hd : ∀ depth, j.depth ≤ depth → Outline.document depth (Outline.ofJson j) = .ok j := by
    induction h with
    | array _ ih =>
      intro depth hd
      obtain ⟨depth, rfl, hx⟩ := Json.exists_of_depth_array_le hd
      rw [Outline.ofJson, Outline.document, documents_eq fun x hm ↦ ih x hm depth (hx x hm)]
      rfl
    | object ha _ ih =>
      intro depth hd
      obtain ⟨depth, rfl, he⟩ := Json.exists_of_depth_object_le hd
      rw [Outline.ofJson, Outline.document, documentMembers_eq [] ha fun e hm ↦ ih e hm depth (he e hm)]
      rfl
    | _ =>
      intro depth _
      cases depth <;> rfl
  exact fun depth hj _ ↦ ⟨j, hd depth hj, rfl⟩

end Reader

namespace Fields

variable {α β : Type}

/-- What is made of a draft by members that are read one after the other, each by a part. -/
inductive Gathers (f : Fields α) (depth : Nat) : f.Draft → List (String × Json) → f.Draft → Prop
  | nil (d : f.Draft) : Gathers f depth d [] d
  | cons {d d' d'' : f.Draft} {name : String} {j : Json} {ms : List (String × Json)} {r : Reader f.Draft}
      (ht : f.take name d = some r) (hr : r depth (Outline.ofJson j) = .ok d') (h : Gathers f depth d' ms d'') :
      Gathers f depth d ((name, j) :: ms) d''

theorem Gathers.readMembers_eq {f : Fields α} {depth : Nat} {d d' : f.Draft} {ms : List (String × Json)}
    (h : f.Gathers depth d ms d') : f.readMembers depth d (Outline.membersOfJson ms) = f.finish d' := by
  induction h with
  | nil d => rfl
  | cons ht hr _ ih =>
    rw [Outline.membersOfJson, readMembers, Except.ok_bind]
    simp only [ht]
    rw [hr, Except.ok_bind, ih]

theorem Gathers.append {f : Fields α} {depth : Nat} {d d' d'' : f.Draft} {ms ns : List (String × Json)}
    (h : f.Gathers depth d ms d') (h' : f.Gathers depth d' ns d'') : f.Gathers depth d (ms ++ ns) d'' := by
  induction h with
  | nil d => exact h'
  | cons ht hr _ ih => exact .cons ht hr (ih h')

theorem Gathers.and_left {f : Fields α} (g : Fields β) {depth : Nat} {d d' : f.Draft} {ms : List (String × Json)}
    (h : f.Gathers depth d ms d') (e : g.Draft) : (f.and g).Gathers depth (d, e) ms (d', e) := by
  induction h with
  | nil d => exact .nil (f := f.and g) (d, e)
  | @cons d d' _ name j _ r ht hr _ ih =>
    have ht' : (f.and g).take name (d, e) = some (r.map (·, e)) := by
      simp only [and, ht]
    have hr' : r.map (·, e) depth (Outline.ofJson j) = .ok (d', e) := by
      rw [Reader.map, hr]
      rfl
    exact .cons (f := f.and g) ht' hr' ih

theorem Gathers.and_right {f : Fields α} {g : Fields β} {depth : Nat} {d : f.Draft} {e e' : g.Draft}
    {ms : List (String × Json)} (h : g.Gathers depth e ms e') (hf : ∀ m ∈ ms, f.take m.1 d = none) :
    (f.and g).Gathers depth (d, e) ms (d, e') := by
  induction h with
  | nil e => exact .nil (f := f.and g) (d, e)
  | @cons e e' _ name j _ r ht hr _ ih =>
    obtain ⟨hn, hf⟩ := List.forall_mem_cons.1 hf
    have ht' : (f.and g).take name (d, e) = some (r.map (d, ·)) := by
      simp only [and, hn, ht, Option.map_some]
    have hr' : r.map (d, ·) depth (Outline.ofJson j) = .ok (d, e') := by
      rw [Reader.map, hr]
      rfl
    exact .cons (f := f.and g) ht' hr' (ih hf)

def Reads (f : Fields α) (ms : List (String × Json)) (p : α → Prop) : Prop :=
  ∀ depth, (∀ e ∈ ms, e.2.depth ≤ depth) → depth ≤ Outline.maxDepth →
    ∃ d, f.Gathers depth f.blank ms d ∧ ∃ a, f.finish d = .ok a ∧ p a

variable {f : Fields α} {r : Reader α} {j : Json} {p : α → Prop} {q : β → Prop}

theorem part_reads (name : String) (missing short : Option α) (h : r.Reads j p) : (part name r missing short).Reads [(name, j)] p := by
  intro depth hd hm
  obtain ⟨a, ha, hpa⟩ := h depth (hd _ List.mem_cons_self) hm
  refine ⟨some a, .cons (f := part name r missing short) (if_pos rfl) ?_ (.nil (f := part name r missing short) _),
    a, rfl, hpa⟩
  show (some <$> r depth (Outline.ofJson j)) = _
  rw [ha]
  rfl

theorem and_reads (name : String) (missing short : Option α) {g : Fields β} {ns : List (String × Json)}
    (hr : r.Reads j p) (hn : ∀ n ∈ ns, n.1 ≠ name) (hg : g.Reads ns q) :
    ((part name r missing short).and g).Reads ((name, j) :: ns) fun x ↦ p x.1 ∧ q x.2 := by
  intro depth hd hm
  obtain ⟨hdj, hdn⟩ := List.forall_mem_cons.1 hd
  obtain ⟨d, hgd, a, ha, hpa⟩ := part_reads name missing short hr depth (List.forall_mem_singleton.2 hdj) hm
  obtain ⟨e, hge, b, hb, hqb⟩ := hg depth hdn hm
  refine ⟨(d, e), (hgd.and_left g g.blank).append (hge.and_right fun m hm ↦ if_neg (hn m hm)), (a, b), ?_, hpa, hqb⟩
  simp only [and, ha, hb]
  rfl

theorem record_reads {ms : List (String × Json)} (h : f.Reads ms p) : f.record.Reads (.object ms) p := by
  intro depth hd hm
  obtain ⟨depth, rfl, he⟩ := Json.exists_of_depth_object_le hd
  obtain ⟨d, hg, a, ha, hpa⟩ := h depth he (by omega)
  exact ⟨a, hg.readMembers_eq.trans ha, hpa⟩

end Fields

end Upsert
