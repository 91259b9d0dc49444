/-! Lists of names and values read as tables: each name has its place and its value. -/
namespace GraphGate

abbrev Table (α : Type) := List (String × α)

namespace Table

variable {α : Type}

/-- The value of a name. -/
def get? (name : String) : Table α → Option α
  | [] => none
  | (k, v) :: rest => if k = name then some v else get? name rest

/-- Gives a name a value: in its place if it has one, else at the end. -/
def put (name : String) (value : α) : Table α → Table α
  | [] => [(name, value)]
  | (k, v) :: rest => if k = name then (k, value) :: rest else (k, v) :: put name value rest

/-- A repeated name keeps its first place and takes its last value. -/
def ofPairs (pairs : List (String × α)) : Table α :=
  pairs.foldl (fun table (k, v) => put k v table) []

/-- Names in their order. -/
def names (table : Table α) : List String := table.map Prod.fst

def has (name : String) (table : Table α) : Bool := (get? name table).isSome

end Table

end GraphGate
