/-! How deep the parts of a search pattern lie inside each other. A character alone has depth zero;
a set, a group, a repetition and a row of several parts lie one deeper than the deepest part. -/
namespace GraphGate.Text.Pattern

/-- Parts beside each other: how many there are, and how deep the deepest is. -/
structure Row where
  parts : Nat
  deepest : Nat

namespace Row

def empty : Row := ⟨0, 0⟩

def add (row : Row) (depth : Nat) : Row := ⟨row.parts + 1, max row.deepest depth⟩

def depth (row : Row) : Nat := if row.parts ≤ 1 then row.deepest else 1 + row.deepest

end Row

/-- What was read of a group: the branches before the last bar, the parts behind it, and apart from
these the depth of the last part if it may be repeated. -/
structure Inside where
  branches : Row
  parts : Row
  last : Option Nat

namespace Inside

def empty : Inside := ⟨.empty, .empty, none⟩

/-- The parts behind the last bar, all of them. -/
def row (inside : Inside) : Row :=
  match inside.last with
  | none => inside.parts
  | some depth => inside.parts.add depth

def add (inside : Inside) (depth : Nat) : Inside :=
  { inside with parts := inside.row, last := some depth }

/-- Letters that change the mode are a part that is not repeated. -/
def addLetters (inside : Inside) : Inside :=
  { inside with parts := inside.row.add 0, last := none }

def repeatLast? (inside : Inside) : Option Inside :=
  inside.last.map fun depth => { inside with last := some (1 + depth) }

/-- At a bar the next branch begins. -/
def branch (inside : Inside) : Inside := ⟨inside.branches.add inside.row.depth, .empty, none⟩

def depth (inside : Inside) : Nat := (inside.branches.add inside.row.depth).depth

end Inside

/-- What was read of a set: what stands before the last operation, and the elements behind it. -/
structure Operand where
  left : Option Nat
  elements : Row

namespace Operand

def empty : Operand := ⟨none, .empty⟩

def add (operand : Operand) (depth : Nat) : Operand :=
  { operand with elements := operand.elements.add depth }

def depth (operand : Operand) : Nat :=
  match operand.left with
  | none => operand.elements.depth
  | some left => 1 + max left operand.elements.depth

/-- Operations are taken from the left. -/
def operate (operand : Operand) : Operand := ⟨some operand.depth, .empty⟩

end Operand

end GraphGate.Text.Pattern
