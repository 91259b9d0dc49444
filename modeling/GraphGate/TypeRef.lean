/-! References to types: a name under list and non-null wrappers. -/
namespace GraphGate

inductive TypeRef where
  | named (name : String) (nullable : Bool)
  | list (element : TypeRef) (nullable : Bool)
deriving DecidableEq

namespace TypeRef

def nullable : TypeRef → Bool
  | .named _ nullable => nullable
  | .list _ nullable => nullable

/-- The name inside all wrappers. -/
def innermost : TypeRef → String
  | .named name _ => name
  | .list element _ => element.innermost

/-- The written form: brackets around a list, an exclamation mark after a non-null type. -/
def chars : TypeRef → List Char
  | .named name nullable => name.toList ++ (if nullable then [] else ['!'])
  | .list element nullable => ['['] ++ element.chars ++ [']'] ++ (if nullable then [] else ['!'])

def text (t : TypeRef) : String := String.ofList t.chars

/-- Splits off one exclamation mark at the end; without it the type is nullable. -/
def splitMark (cs : List Char) : List Char × Bool :=
  if cs.getLast? = some '!' then (cs.dropLast, false) else (cs, true)

theorem length_splitMark_le (cs : List Char) : (splitMark cs).1.length ≤ cs.length := by
  unfold splitMark
  split
  · simp
  · exact Nat.le_refl _

/-- Fails where an opening bracket has no partner at the end; every other text is a name. -/
def parse? (cs : List Char) : Option TypeRef :=
  match _h : splitMark cs with
  | ('[' :: inner, nullable) =>
    if inner.getLast? = some ']' then (parse? inner.dropLast).map (.list · nullable) else none
  | (name, nullable) => some (.named (String.ofList name) nullable)
termination_by cs.length
decreasing_by
  have := length_splitMark_le cs
  rw [_h] at this
  simp only [List.length_cons, List.length_dropLast] at this ⊢
  omega

/-- The reference that a text stands for; one that cannot be read is a name as a whole. -/
def ofText (s : String) : TypeRef := (parse? s.toList).getD (.named s true)

end TypeRef

end GraphGate
