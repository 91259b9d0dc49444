import GraphGate.Path
import GraphGate.Plan.Basic

/-! What is known when the value of a field is asked for. -/
namespace GraphGate

/-- One selected field at one place of the response. -/
structure Context where
  field : FieldSignature
  node : FieldNode
  /-- The object type that the field belongs to. -/
  parentType : String
  path : Path
  plan : Plan

def Context.coordinate (c : Context) : String := GraphGate.coordinate c.parentType c.field.name

/-- What a resolver is called with. -/
structure Invocation where
  parent : Json
  arguments : Table Json
  context : Context

/-- The supplied arguments, and defaults for the others, in the order they are declared. -/
def effectiveArguments (field : FieldSignature) (supplied : Table Json) : Table Json :=
  field.arguments.filterMap fun argument =>
    ((supplied.get? argument.name).or argument.default).map fun value => (argument.name, value)

end GraphGate
