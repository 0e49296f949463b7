import Upsert.Form.Outcome
import Upsert.Proofs.Form.Batch

namespace Upsert

open Json Reader

namespace Outcome

def IsExact (o : Outcome) : Prop := ∀ r ∈ o.row?, r.IsExact

theorem whole_toForm {o : Outcome} (h : o.IsExact) : o.toForm.Whole := by
  cases o with
  | applied row =>
    apply Whole.object
    simp only [List.forall_mem_cons]
    exact ⟨.string _, Row.whole_toForm (h row rfl), by simp⟩
  | skipped => exact .single (.string _)

theorem readMembers_row {depth : Nat} {o : Outline} {r : Row} (h : Row.reader depth o = .ok r) :
    readMembers depth (.status .applied) (.member (.ok "row") o .closed) = .ok (.applied r) := by
  rw [readMembers, Except.ok_bind, if_neg (by decide), if_pos rfl, Draft.readContent, Status.content, Reader.map, h]
  rfl

theorem reads_toForm {o : Outcome} (h : o.IsExact) : reader.Reads o.toForm (· == o) := by
  intro depth hd hm
  cases o with
  | applied row =>
    obtain ⟨depth, rfl, he⟩ := exists_of_depth_object_le hd
    simp only [List.forall_mem_cons] at he
    obtain ⟨r, hr, hb⟩ := Row.reads_toForm (h row rfl) depth he.2.1 (by omega)
    refine ⟨.applied r, ?_, hb⟩
    rw [← readMembers_row hr]
    rfl
  | skipped =>
    obtain ⟨depth, rfl, -⟩ := exists_of_depth_object_le hd
    exact ⟨.skipped, rfl, rfl⟩

theorem whole_listForm {os : List Outcome} (h : ∀ o ∈ os, o.IsExact) : (listForm os).Whole :=
  .single (.map fun o ho ↦ whole_toForm (h o ho))

theorem listReader_reads {os : List Outcome} (h : ∀ o ∈ os, o.IsExact) : listReader.Reads (listForm os) (· == os) :=
  Fields.record_reads (Fields.part_reads "outcomes" none none (list_reads_beq fun o ho ↦ reads_toForm (h o ho)))

end Outcome

/-- The text of whatever is exact and nested no deeper than a text may be is read, and what it is read as is equal. -/
def RoundTrips {α : Type} [BEq α] (form : α → Json) (reader : Reader α) (exact : α → Prop) : Prop :=
  ∀ a, exact a → (form a).depth ≤ Outline.maxDepth → ∃ b, reader.readText (form a).text = .ok b ∧ b == a

theorem roundTrips_of_reads {α : Type} [BEq α] {form : α → Json} {reader : Reader α} {exact : α → Prop}
    (hw : ∀ a, exact a → (form a).Whole) (hr : ∀ a, exact a → reader.Reads (form a) (· == a)) :
    RoundTrips form reader exact := by
  intro a ha hd
  rw [readText_text reader (hw a ha)]
  exact hr a ha _ hd le_rfl

theorem forms_round_trip :
    RoundTrips Value.toForm Value.reader Value.IsExact ∧
    RoundTrips Expression.toForm Expression.reader Expression.IsExact ∧
    RoundTrips Target.toForm Target.reader (fun _ ↦ True) ∧
    RoundTrips ConflictTarget.toForm ConflictTarget.reader (fun _ ↦ True) ∧
    RoundTrips Action.toForm Action.reader Action.IsExact ∧
    RoundTrips Batch.toForm Batch.reader Batch.IsExact ∧
    RoundTrips Outcome.listForm Outcome.listReader (fun os ↦ ∀ o ∈ os, o.IsExact) := by
  refine ⟨?_, ?_, ?_, ?_, ?_, ?_, ?_⟩
  · exact roundTrips_of_reads (fun _ ↦ Value.whole_toForm) fun _ ↦ Value.reads_toForm
  · exact roundTrips_of_reads (fun _ ↦ Expression.whole_toForm) fun _ ↦ Expression.reads_toForm
  · exact roundTrips_of_reads (fun t _ ↦ t.whole_toForm) fun t _ ↦ t.reads_toForm.beq
  · exact roundTrips_of_reads (fun t _ ↦ t.whole_toForm) fun t _ ↦ t.reads_toForm.beq
  · exact roundTrips_of_reads (fun _ ↦ Action.whole_toForm) fun _ ↦ Action.reads_toForm
  · exact roundTrips_of_reads (fun _ ↦ Batch.whole_toForm) fun _ ↦ Batch.reads_toForm
  · exact roundTrips_of_reads (fun _ ↦ Outcome.whole_listForm) fun _ ↦ Outcome.listReader_reads

theorem batch_round_trips_conditional :
    let b : Batch := {
      rows := [⟨[⟨"code", .string "a\"b"⟩, ⟨"tags", .hstore (.ofList [("x", none), ("y", some "1")])⟩, ⟨"note", .null⟩]⟩]
      conflictTarget := some (.keyed [⟨"tags", "y"⟩])
      action := .update .inserted (some (.not (.comparison .lt (.column "n") (.literal (.int 3))))) }
    b.IsExact ∧ b.toForm.depth ≤ Outline.maxDepth ∧
      ∃ b', Batch.reader.readText b.toForm.text = .ok b' ∧ b' == b := by
  intro b
  have he : b.IsExact := by
    refine ⟨?_, ⟨trivial, ?_⟩, ?_⟩
    · simp [b, Row.IsExact, Value.IsExact]
    · simp [Expression.IsExact, Expression.literals, Value.IsExact]
    · simp [b]
  have hd : b.toForm.depth ≤ Outline.maxDepth := by decide
  obtain ⟨-, -, -, -, -, hb, -⟩ := forms_round_trip
  exact ⟨he, hd, hb b he hd⟩

end Upsert
