import Upsert.Plan.Lowering
import Upsert.Proofs.Except
import Upsert.Proofs.Sql.Evaluation

namespace Upsert

open Sql (Meaning Operator Scene Term Truth)

namespace Sql.Truth

def conj (ts : List Truth) : Truth := ts.foldr and (some true)

def disj (ts : List Truth) : Truth := ts.foldr or (some false)

theorem and_assoc (s t u : Truth) : (s.and t).and u = s.and (t.and u) := by
  rcases s with _ | _ | _ <;> rcases t with _ | _ | _ <;> rcases u with _ | _ | _ <;> rfl

theorem or_assoc (s t u : Truth) : (s.or t).or u = s.or (t.or u) := by
  rcases s with _ | _ | _ <;> rcases t with _ | _ | _ <;> rcases u with _ | _ | _ <;> rfl

theorem or_false (t : Truth) : t.or (some false) = t := by
  rcases t with _ | _ | _ <;> rfl

end Sql.Truth

inductive Reference
  | stored (name : String)
  | proposed (name : String)

namespace Reference

def name : Reference → String
  | .stored name | .proposed name => name

def isProposed : Reference → Bool
  | .stored _ => false
  | .proposed _ => true

end Reference

namespace Expression

@[induction_eliminator]
theorem induct {motive : Expression → Prop} (literal : ∀ v, motive (.literal v))
    (column : ∀ name, motive (.column name)) (proposed : ∀ name, motive (.proposed name))
    (comparison : ∀ op lhs rhs, motive lhs → motive rhs → motive (.comparison op lhs rhs))
    (and : ∀ items, (∀ e ∈ items, motive e) → motive (.and items))
    (or : ∀ items, (∀ e ∈ items, motive e) → motive (.or items)) (not : ∀ e, motive e → motive (.not e))
    (isNull : ∀ e, motive e → motive (.isNull e)) (isNotNull : ∀ e, motive e → motive (.isNotNull e)) :
    ∀ e, motive e
  | .literal v => literal v
  | .column name => column name
  | .proposed name => proposed name
  | .comparison op lhs rhs => comparison op lhs rhs
    (induct literal column proposed comparison and or not isNull isNotNull lhs)
    (induct literal column proposed comparison and or not isNull isNotNull rhs)
  | .and items => and items fun e _ ↦ induct literal column proposed comparison and or not isNull isNotNull e
  | .or items => or items fun e _ ↦ induct literal column proposed comparison and or not isNull isNotNull e
  | .not e => not e (induct literal column proposed comparison and or not isNull isNotNull e)
  | .isNull e => isNull e (induct literal column proposed comparison and or not isNull isNotNull e)
  | .isNotNull e => isNotNull e (induct literal column proposed comparison and or not isNull isNotNull e)

section

variable (m : Meaning) (stored proposed : Row)

mutual

def value : Expression → Value
  | .literal v => v
  | .column name => stored.get name
  | .proposed name => proposed.get name
  | .comparison op lhs rhs => (m.compare op (value lhs) (value rhs)).toValue
  | .and items => (Truth.conj (truths items)).toValue
  | .or items => (Truth.disj (truths items)).toValue
  | .not e => (Truth.ofValue (value e)).not.toValue
  | .isNull e => .boolean (value e).isNull
  | .isNotNull e => .boolean !(value e).isNull

def truths : List Expression → List Truth
  | [] => []
  | e :: es => Truth.ofValue (value e) :: truths es

end

end

mutual

def references : Expression → List Reference
  | .literal _ => []
  | .column name => [.stored name]
  | .proposed name => [.proposed name]
  | .comparison _ lhs rhs => references lhs ++ references rhs
  | .and items | .or items => referencesOf items
  | .not e | .isNull e | .isNotNull e => references e

def referencesOf : List Expression → List Reference
  | [] => []
  | e :: es => references e ++ referencesOf es

end

theorem referencesOf_eq (items : List Expression) : referencesOf items = items.flatMap references := by
  induction items with
  | nil => rfl
  | cons e es ih => rw [referencesOf, ih, List.flatMap_cons]

end Expression

namespace Sql.Term

/-- Operands joined from the left; a truth value if there is none. -/
def joined (op : Operator) (unit : Bool) : List Term → Term
  | [] => .truth unit
  | t :: ts => ts.foldl (.binary op) t

variable {op : Operator} {f : Truth → Truth → Truth} {unit : Bool} (m : Meaning) (s : Scene)

end Sql.Term

variable {s : Scope} {e : Expression} {items : List Expression} {t : Term}

namespace Scope

def Admits : Scope → Reference → Prop
  | .table _, r => Text.isBlankText r.name = false
  | .indexPredicate, r => Text.isBlankText r.name = false ∧ r.isProposed = false

def Reads : Scope → Scene → Prop
  | .table name, scene => scene.table = name
  | .indexPredicate, _ => True

theorem exists_stored_iff (s : Scope) (name : String) : (∃ t, s.stored name = .ok t) ↔ s.Admits (.stored name) := by
  unfold stored
  cases s <;> cases h : Text.isBlankText name <;> simp [Admits, Reference.name, Reference.isProposed, h]

theorem exists_proposed_iff (s : Scope) (name : String) :
    (∃ t, s.proposed name = .ok t) ↔ s.Admits (.proposed name) := by
  unfold proposed
  cases s <;> cases h : Text.isBlankText name <;> simp [Admits, Reference.name, Reference.isProposed, h]

end Scope

namespace Expression

theorem lowerOnto_eq_ok_iff {op : Operator} {l : Term} : lowerOnto s op l items = .ok t ↔
    ∃ ts, List.Forall₂ (fun e t ↦ e.lower s = .ok t) items ts ∧ t = ts.foldl (.binary op) l := by
  induction items generalizing l with
  | nil =>
    rw [lowerOnto]
    constructor
    · intro h
      cases h
      exact ⟨[], .nil, rfl⟩
    · rintro ⟨ts, hts, rfl⟩
      rw [List.forall₂_nil_left_iff.1 hts]
      rfl
  | cons e es ih =>
    rw [lowerOnto, Except.bind_eq_ok_iff]
    simp only [ih]
    constructor
    · rintro ⟨r, hr, ts, hts, rfl⟩
      exact ⟨r :: ts, .cons hr hts, rfl⟩
    · rintro ⟨_, h, rfl⟩
      obtain ⟨r, ts, hr, hts, rfl⟩ := List.forall₂_cons_left_iff.1 h
      exact ⟨r, hr, ts, hts, rfl⟩

theorem lowerOnto_first_eq_ok_iff {op : Operator} (unit : Bool) {es : List Expression} :
    (e.lower s >>= fun l ↦ lowerOnto s op l es) = .ok t ↔
      ∃ ts, List.Forall₂ (fun e t ↦ e.lower s = .ok t) (e :: es) ts ∧ t = .joined op unit ts := by
  rw [Except.bind_eq_ok_iff]
  simp only [lowerOnto_eq_ok_iff]
  constructor
  · rintro ⟨l, hl, ts, hts, rfl⟩
    exact ⟨l :: ts, .cons hl hts, rfl⟩
  · rintro ⟨_, h, rfl⟩
    obtain ⟨l, ts, hl, hts, rfl⟩ := List.forall₂_cons_left_iff.1 h
    exact ⟨l, hl, ts, hts, rfl⟩

theorem truth_eq_joined_iff (op : Operator) (unit : Bool) : (.ok (.truth unit) : Except PlanError Term) = .ok t ↔
    ∃ ts, List.Forall₂ (fun (e : Expression) t ↦ e.lower s = .ok t) [] ts ∧ t = .joined op unit ts := by
  constructor
  · intro h
    cases h
    exact ⟨[], .nil, rfl⟩
  · rintro ⟨ts, hts, rfl⟩
    rw [List.forall₂_nil_left_iff.1 hts]
    rfl

theorem lower_and_eq_ok_iff : (and items).lower s = .ok t ↔
    ∃ ts, List.Forall₂ (fun e t ↦ e.lower s = .ok t) items ts ∧ t = .joined .and true ts := by
  cases items with
  | nil => exact truth_eq_joined_iff .and true
  | cons e es => exact lowerOnto_first_eq_ok_iff true

theorem lower_or_eq_ok_iff : (or items).lower s = .ok t ↔
    ∃ ts, List.Forall₂ (fun e t ↦ e.lower s = .ok t) items ts ∧ t = .joined .or false ts := by
  cases items with
  | nil => exact truth_eq_joined_iff .or false
  | cons e es => exact lowerOnto_first_eq_ok_iff false

theorem lower_comparison_eq_ok_iff {op : Comparison} {lhs rhs : Expression} :
    (comparison op lhs rhs).lower s = .ok t ↔
      ∃ l r, lhs.lower s = .ok l ∧ rhs.lower s = .ok r ∧ t = .binary (.comparison op) l r := by
  rw [lower, Except.bind_eq_ok_iff]
  simp only [Except.bind_eq_ok_iff]
  constructor
  · rintro ⟨l, hl, r, hr, h⟩
    cases h
    exact ⟨l, r, hl, hr, rfl⟩
  · rintro ⟨l, r, hl, hr, rfl⟩
    exact ⟨l, hl, r, hr, rfl⟩

theorem exists_joined_iff {op : Operator} {unit : Bool}
    (ih : ∀ e ∈ items, (∃ t, e.lower s = .ok t) ↔ ∀ r ∈ e.references, s.Admits r) :
    (∃ t ts, List.Forall₂ (fun e t ↦ e.lower s = .ok t) items ts ∧ t = Term.joined op unit ts) ↔
      ∀ r ∈ referencesOf items, s.Admits r := by
  rw [referencesOf_eq, List.forall_mem_flatMap, ← forall₂_congr ih, ← Except.exists_forall₂_iff, exists_comm]
  simp

/-- Every operand at any depth is lowered, and columns are all that can be refused. -/
theorem exists_lower_iff (s : Scope) (e : Expression) :
    (∃ t, e.lower s = .ok t) ↔ ∀ r ∈ e.references, s.Admits r := by
  induction e with
  | literal v => simp [lower, references]
  | column name =>
    rw [lower, references, List.forall_mem_singleton]
    exact s.exists_stored_iff name
  | proposed name =>
    rw [lower, references, List.forall_mem_singleton]
    exact s.exists_proposed_iff name
  | comparison op lhs rhs ihl ihr =>
    rw [references, List.forall_mem_append, ← ihl, ← ihr]
    simp only [lower_comparison_eq_ok_iff]
    constructor
    · rintro ⟨t, l, r, hl, hr, -⟩
      exact ⟨⟨l, hl⟩, r, hr⟩
    · rintro ⟨⟨l, hl⟩, r, hr⟩
      exact ⟨_, l, r, hl, hr, rfl⟩
  | and items ih =>
    simp only [lower_and_eq_ok_iff]
    exact exists_joined_iff ih
  | or items ih =>
    simp only [lower_or_eq_ok_iff]
    exact exists_joined_iff ih
  | not e ih =>
    rw [references, ← ih]
    exact Except.exists_map_eq_ok_iff
  | isNull e ih =>
    rw [references, ← ih]
    exact Except.exists_map_eq_ok_iff
  | isNotNull e ih =>
    rw [references, ← ih]
    exact Except.exists_map_eq_ok_iff

variable {m : Meaning} {scene : Scene}

end Expression

end Upsert
