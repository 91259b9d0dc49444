import GraphGate.Json.Number
import GraphGate.Table

/-! JSON values. Objects keep the order in which their keys were first given. -/
namespace GraphGate

inductive Json where
  | null
  | bool (value : Bool)
  | num (value : Number)
  | str (value : String)
  | arr (elements : List Json)
  | obj (fields : List (String × Json))

instance : Inhabited Json := ⟨.null⟩

namespace Json

/-- The value under a key, if the value is an object that has it. -/
def get? (key : String) : Json → Option Json
  | .obj fields => Table.get? key fields
  | _ => none

def string? : Json → Option String
  | .str s => some s
  | _ => none

mutual

/-- Equality of values: the order of an object's keys does not matter. -/
def same : Json → Json → Bool
  | .null, .null => true
  | .bool a, .bool b => a == b
  | .num a, .num b => a.same b
  | .str a, .str b => a == b
  | .arr as, .arr bs => sameElements as bs
  | .obj as, .obj bs => as.length == bs.length && sameFields as bs
  | _, _ => false

def sameElements : List Json → List Json → Bool
  | [], [] => true
  | a :: as, b :: bs => a.same b && sameElements as bs
  | _, _ => false

def sameFields : List (String × Json) → List (String × Json) → Bool
  | [], _ => true
  | (k, a) :: as, bs =>
    (match Table.get? k bs with
      | some b => a.same b
      | none => false) && sameFields as bs

end

end Json

end GraphGate
