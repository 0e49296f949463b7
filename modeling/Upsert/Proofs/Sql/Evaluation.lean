import Upsert.Proofs.Row
import Upsert.Sql.Insert

namespace Upsert.Sql

abbrev Truth := Option Bool

namespace Truth

def ofValue : Value → Truth
  | .boolean b => some b
  | _ => none

def toValue (t : Truth) : Value := t.elim .null .boolean

def not (t : Truth) : Truth := t.map (!·)

def and : Truth → Truth → Truth
  | some false, _ | _, some false => some false
  | some true, some true => some true
  | _, _ => none

def or (s t : Truth) : Truth := (s.not.and t.not).not

end Truth

structure Meaning where
  compare : Comparison → Value → Value → Truth
  extract : Value → String → Value

/-- The rows that a term of an update of `table` reads. In the list of what is returned, in an index and in its
predicate, columns have no qualifier and there is one row. -/
structure Scene where
  table : String
  stored : Row
  proposed : Row

variable (m : Meaning)

/-- The value of a term. What a server would refuse (a qualifier that is no table, logic on what is no truth value)
reads as null. -/
def Term.eval (s : Scene) : Term → Value
  | .column none name => s.stored.get name
  | .column (some qualifier) name => if qualifier = s.table then s.stored.get name else .null
  | .excluded name => s.proposed.get name
  | .value v => v
  | .verbatim word => if word = "TRUE" then .boolean true else if word = "FALSE" then .boolean false else .null
  | .key e k => m.extract (e.eval s) k
  | .binary (.comparison op) lhs rhs => (m.compare op (lhs.eval s) (rhs.eval s)).toValue
  | .binary .and lhs rhs => ((Truth.ofValue (lhs.eval s)).and (Truth.ofValue (rhs.eval s))).toValue
  | .binary .or lhs rhs => ((Truth.ofValue (lhs.eval s)).or (Truth.ofValue (rhs.eval s))).toValue
  | .not e => (Truth.ofValue (e.eval s)).not.toValue
  | .isNull e => .boolean (e.eval s).isNull
  | .isNotNull e => .boolean !(e.eval s).isNull
  | .labelled e _ => e.eval s

/-- The row that settings make of the stored one. All their values are taken before the first column is set. -/
def updated (s : Scene) (settings : List Setting) : Row :=
  s.stored.setAll (settings.map fun x ↦ ⟨x.column, x.value.eval m s⟩)

theorem get_updated_cases (s : Scene) (settings : List Setting) (name : String) :
    (∀ x ∈ settings, x.column ≠ name) ∧ (updated m s settings).get name = s.stored.get name ∨
      ∃ x ∈ settings, x.column = name ∧ (updated m s settings).get name = x.value.eval m s := by
  rcases s.stored.get?_setAll_cases (settings.map fun x ↦ ⟨x.column, x.value.eval m s⟩) name with
    ⟨hn, hg⟩ | ⟨f, hf, hn, hv⟩
  · refine .inl ⟨fun x hx ↦ hn _ (List.mem_map_of_mem hx), ?_⟩
    rw [Row.get, updated, hg, Row.get]
  · obtain ⟨x, hx, rfl⟩ := List.mem_map.1 hf
    refine .inr ⟨x, hx, hn, ?_⟩
    rw [Row.get, updated, hv, Option.getD_some]

end Upsert.Sql
