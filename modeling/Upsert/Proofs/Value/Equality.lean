import Upsert.Value.Basic

namespace Upsert

/-- Zero without its sign. -/
def Binary64.plain (x : Binary64) : Binary64 := if x.isZero then .zero else x

theorem Binary64.isFinite_plain {x : Binary64} (h : x.isFinite) : x.plain.isFinite := by
  unfold plain
  split
  · decide
  · exact h

theorem Binary64.isNaN_eq_false {x : Binary64} (h : x.isFinite) : x.isNaN = false := by
  simp only [isFinite, decide_eq_true_eq] at h
  simp only [isNaN, decide_eq_false_iff_not]
  omega

theorem Binary64.numEq_iff {x y : Binary64} (hx : x.isFinite) (hy : y.isFinite) :
    x.numEq y ↔ x.plain = y.plain := by
  have hb : x.bits = y.bits ↔ x = y := by cases x; cases y; simp
  have hz : Binary64.zero.isZero := by decide
  simp only [numEq, isNaN_eq_false hx, isNaN_eq_false hy, plain, Bool.not_false, Bool.true_and,
    Bool.or_eq_true, Bool.and_eq_true, beq_iff_eq, hb]
  grind

namespace JsonNumber

def plain : JsonNumber → JsonNumber
  | .int n => .int n
  | .float x h => .float x.plain (Binary64.isFinite_plain h)

theorem numEq_iff (m n : JsonNumber) : m.numEq n ↔ m.plain = n.plain := by
  cases m with
  | int m => cases n <;> simp [numEq, plain]
  | float x hx =>
    cases n with
    | int n => simp [numEq, plain]
    | float y hy => simp [numEq, plain, Binary64.numEq_iff hx hy]

end JsonNumber

namespace Json

mutual

def plain : Json → Json
  | .number n => .number n.plain
  | .array xs => .array (plainItems xs)
  | .object ms => .object (plainMembers ms)
  | .null => .null
  | .boolean b => .boolean b
  | .string s => .string s

def plainItems : List Json → List Json
  | [] => []
  | x :: xs => plain x :: plainItems xs

def plainMembers : List (String × Json) → List (String × Json)
  | [] => []
  | (k, x) :: ms => (k, plain x) :: plainMembers ms

end

mutual

theorem eq_iff (i j : Json) : i.eq j ↔ i.plain = j.plain := by
  cases i with
  | number m => cases j <;> simp [eq, plain, JsonNumber.numEq_iff]
  | array xs =>
    cases j with
    | array ys => simp [eq, plain, eqItems_iff xs ys]
    | _ => simp [eq, plain]
  | object ms =>
    cases j with
    | object ns => simp [eq, plain, eqMembers_iff ms ns]
    | _ => simp [eq, plain]
  | _ => cases j <;> simp [eq, plain]

theorem eqItems_iff (xs ys : List Json) : eqItems xs ys ↔ plainItems xs = plainItems ys := by
  cases xs with
  | nil => cases ys <;> simp [eqItems, plainItems]
  | cons x xs =>
    cases ys with
    | nil => simp [eqItems, plainItems]
    | cons y ys => simp [eqItems, plainItems, eq_iff x y, eqItems_iff xs ys]

theorem eqMembers_iff (ms ns : List (String × Json)) :
    eqMembers ms ns ↔ plainMembers ms = plainMembers ns := by
  cases ms with
  | nil => cases ns <;> simp [eqMembers, plainMembers]
  | cons m ms =>
    obtain ⟨k, x⟩ := m
    cases ns with
    | nil => simp [eqMembers, plainMembers]
    | cons n ns =>
      obtain ⟨l, y⟩ := n
      simp [eqMembers, plainMembers, eq_iff x y, eqMembers_iff ms ns]

end

end Json

namespace Value

def plain : Value → Value
  | .decimal d => .decimal d.normalized
  | .json j => .json j.plain
  | v => v

theorem beq_iff (v w : Value) : v == w ↔ v.plain = w.plain := by
  change v.eq w ↔ _
  cases v <;> cases w <;> simp [eq, plain, Json.eq_iff, Decimal.numEq]

instance : EquivBEq Value := equivBEq_of_iff_apply_eq plain beq_iff

theorem map_plain_eq_iff (vs ws : List Value) : vs.map plain = ws.map plain ↔ vs == ws := by
  induction vs generalizing ws with
  | nil => cases ws <;> simp
  | cons v vs ih =>
    cases ws with
    | nil => simp
    | cons w ws =>
      rw [List.map_cons, List.map_cons, List.cons_eq_cons, ih, ← beq_iff, List.cons_beq_cons, Bool.and_eq_true]

end Value

end Upsert
