import Upsert.Form.Value
import Upsert.Proofs.Calendar.Reading
import Upsert.Proofs.Form.Reader
import Upsert.Proofs.Number.Rereading
import Upsert.Proofs.Uuid
import Upsert.Proofs.Value.Equality

namespace Upsert.Value

/-- No number in the value is a float and no moment lies in a leap second. Its parts are as their types have them: the
scale of a decimal has 64 bits, and documents are kept in order. -/
def IsExact : Value → Prop
  | .float _ => False
  | .decimal d => Int64.minValue.toInt ≤ d.scale ∧ d.scale ≤ Int64.maxValue.toInt
  | .json j => j.Exact
  | .timestamp t | .localTimestamp t => t.nanos < 1000000000
  | _ => True

open Json Reader

theorem whole_int64 (n : Int64) : (Json.int64 n).Whole := by
  have h63 : pow2 63 = 9223372036854775808 := by decide
  have h64 : pow2 64 = 18446744073709551616 := by decide
  have hl := n.le_toInt
  have hh := n.toInt_lt
  exact .int (by omega) (by omega)

theorem whole_toForm {v : Value} (h : v.IsExact) : v.toForm.Whole := by
  cases v with
  | null => exact .string _
  | boolean b => exact .single (.boolean b)
  | int n => exact .single (whole_int64 n)
  | float x => exact h.elim
  | json j => exact .single (Exact.whole h)
  | bytes os =>
    apply Whole.single
    apply Whole.map
    intro o _
    have ho := o.toNat_lt
    have h64 : pow2 64 = 18446744073709551616 := by decide
    exact .int (by omega) (by omega)
  | strings ss => exact .single (.map fun s _ ↦ .string s)
  | hstore m =>
    apply Whole.single
    apply Whole.object
    intro e he
    obtain ⟨e, _, rfl⟩ := List.mem_map.1 he
    exact .optional fun s _ ↦ .string s
  | _ => exact .single (.string _)

theorem decimalReader_reads {d : Decimal} (hl : Int64.minValue.toInt ≤ d.scale) (hh : d.scale ≤ Int64.maxValue.toInt) :
    decimalReader.Reads (.string d.text) (·.numEq d) := by
  obtain ⟨d', hd, he⟩ := Decimal.exists_read?_text hl hh
  have hr : (Reader.string.filterMap Decimal.read?).Reads (.string d.text) (·.numEq d) := by
    apply (string_reads d.text).filterMap
    rintro _ rfl
    exact ⟨d', hd, he⟩
  intro depth hd hm
  obtain ⟨a, ha, hp⟩ := hr depth hd hm
  refine ⟨a, ?_, hp⟩
  rw [← ha]
  cases depth <;> rfl

theorem hstore_reads (m : Hstore) : Reader.string.optional.dictionary.Reads
    (.object (m.entries.map fun e ↦ (e.1, nullableForm e.2))) (· = m) := by
  apply dictionary_reads
  intro e _
  exact optional_reads_eq fun s _ ↦ ⟨by simp, string_reads s⟩

theorem text_reads {f : String → Option Value} {text : String} {v : Value} (h : f text = some v) :
    (Reader.string.filterMap f).Reads (.string text) (· == v) := by
  apply (string_reads text).filterMap
  rintro _ rfl
  exact ⟨v, h, BEq.rfl⟩

theorem reads_toForm {v : Value} (h : v.IsExact) : reader.Reads v.toForm (· == v) := by
  cases v with
  | null => exact (tagged_alone_reads rfl).beq
  | boolean b => exact tagged_reads rfl ((boolean_reads b).map_eq boolean).beq
  | int n => exact tagged_reads rfl ((int64_reads n).map_eq int).beq
  | float x => exact h.elim
  | decimal d => exact tagged_reads rfl ((decimalReader_reads h.1 h.2).map fun _ he ↦ he)
  | string s => exact tagged_reads rfl ((string_reads s).map_eq string).beq
  | json j => exact tagged_reads rfl ((document_reads h).map_eq json).beq
  | uuid u =>
    apply tagged_reads rfl
    apply text_reads
    rw [Uuid.read?_text]
    rfl
  | bytes os => exact tagged_reads rfl ((list_reads_eq fun o _ ↦ octet_reads o).map_eq bytes).beq
  | date d =>
    apply tagged_reads rfl
    apply text_reads
    rw [Date.read?_text]
    rfl
  | timestamp t =>
    apply tagged_reads rfl
    apply text_reads
    rw [Moment.readLenient?_text h]
    rfl
  | localTimestamp t =>
    apply tagged_reads rfl
    apply text_reads
    rw [Moment.readLocal?_text h]
    rfl
  | strings ss => exact tagged_reads rfl ((list_reads_eq fun s _ ↦ string_reads s).map_eq strings).beq
  | hstore m => exact tagged_reads rfl ((hstore_reads m).map_eq hstore).beq

end Upsert.Value
