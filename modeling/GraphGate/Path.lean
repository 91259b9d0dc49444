/-! Positions in a response: field names and list indexes from the root down. -/
namespace GraphGate

inductive Segment where
  | field (name : String)
  | index (n : Nat)
deriving DecidableEq

def Segment.text : Segment → String
  | .field name => name
  | .index n => toString n

abbrev Path := List Segment

/-- The segments with points between them. -/
def Path.text (p : Path) : String := ".".intercalate (p.map Segment.text)

end GraphGate
