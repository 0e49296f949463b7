import Upsert.Proofs.Except
import Upsert.Wire.Encode

namespace Upsert

namespace ColumnType

variable {t : ColumnType}

theorem eq_of_isText (h : t.isText) :
    t = .base .text ∨ t = .base .varchar ∨ t = .base .bpchar ∨ t = .base .name := by
  cases t with
  | base b => cases b <;> simp_all [isText, BaseType.isText]
  | defined schema name labels => cases h

theorem isHstore_base {b : BaseType} (h : b.typeName ≠ "hstore") : (ColumnType.base b).isHstore = false :=
  beq_eq_false_iff_ne.2 h

theorem isHstore_of_isText (h : t.isText) : t.isHstore = false := by
  obtain rfl | rfl | rfl | rfl := eq_of_isText h <;> exact isHstore_base (by simp [BaseType.typeName])

end ColumnType

namespace Value

variable {t : ColumnType} {os : Option Octets}

theorem encode_hstore_ne_ok {m : Hstore} (hn : t.isHstore = false) : encode t (.hstore m) ≠ .ok os := by
  rw [encode, hn]
  exact nofun

theorem encode_json_ne_ok {j : Json} (hj : t.isJson = false) (ht : t.isText = false) (hn : t.isHstore = false) :
    encode t (.json j) ≠ .ok os := by
  rw [encode, encodeDocument, hj, ht, hn]
  exact nofun

theorem encode_decimal_ne_ok {d : Decimal} {os : Octets}
    (ht : t = .base .bool ∨ t = .base .uuid ∨ t = .base .date ∨ t = .base .timestamp ∨ t = .base .timestamptz) :
    encode t (.decimal d) ≠ .ok (some os) := by
  intro h
  have hd : encodeDecimal t d = .ok os := Except.map_some_eq_ok_iff.1 h
  obtain rfl | rfl | rfl | rfl | rfl := ht <;>
  · obtain ⟨n, -, hn⟩ := Except.bind_eq_ok_iff.1 hd
    cases hn

end Value

end Upsert
