import Upsert.Connection.Link
import Upsert.Row

namespace Upsert.Items

def definition (table : String) : String :=
  "CREATE TABLE \"" ++ table ++ "\" (\n" ++
    "            id BIGSERIAL PRIMARY KEY,\n" ++
    "            k INTEGER NOT NULL UNIQUE,\n" ++
    "            v TEXT NOT NULL,\n" ++
    "            created_at TIMESTAMPTZ NOT NULL DEFAULT now()\n" ++
    "        );"

def row (k : Int64) (v : String) : Row := .ofFields [⟨"k", .int k⟩, ⟨"v", .string v⟩]

def ids (outcomes : List Outcome) : List (Option Value) :=
  outcomes.map fun o ↦ o.row?.map fun r ↦ r.get "id"

def pairsQuery (table : String) : String := "SELECT k, v FROM \"" ++ table ++ "\" ORDER BY k"

def countQuery (table : String) : String := "SELECT COUNT(*) AS n FROM \"" ++ table ++ "\""

def pair? (r : Row) : Option (Int64 × String) := do
  return (← (r.get "k").asInt64?, ← (r.get "v").asString?)

variable {m : Type → Type} [Monad m] (l : Link m)

def storedPairs (table : String) : m (Except DbError (Option (List (Int64 × String)))) := do
  return (← l.query (pairsQuery table) []).map fun rows ↦ rows.mapM pair?

def rowCount (table : String) : m (Except DbError (Option Int64)) := do
  return (← l.query (countQuery table) []).map fun rows ↦ rows.head?.bind fun r ↦ (r.get "n").asInt64?

end Upsert.Items
