import GraphGate.Coercion
import GraphGate.Query.Document

/-! Plans: operations that passed all checks, with fragments inlined and values put in place, and
the reasons why an operation has none. -/
namespace GraphGate

open Query (Position OperationType)

/-- A selected field with what is selected below it. -/
structure FieldNode where
  aliasName : Option String
  name : String
  /-- The arguments that were supplied, without defaults. -/
  arguments : Table Json
  children : List FieldNode
  position : Position

namespace FieldNode

/-- The key of the field in the response. -/
def outputName (node : FieldNode) : String := node.aliasName.getD node.name

mutual

/-- The number of nodes in a tree. -/
def weight : FieldNode → Nat
  | ⟨_, _, _, children, _⟩ => 1 + weights children

def weights : List FieldNode → Nat
  | [] => 0
  | node :: rest => node.weight + weights rest

end

end FieldNode

structure Plan where
  name : Option String
  operation : OperationType
  /-- The type of the fields at the top. -/
  root : String
  fields : List FieldNode

/-- The name under which an object tells its own type; it is no argument of any field. -/
def Plan.typename : String := "__typename"

inductive PlanError where
  | missingQuery
  | unreadable (error : Query.DocumentError)
  | variableUnset (name : String) (position : Position)
  | variableUndeclared (name : String) (position : Position)
  | variableType (name : String) (mismatch : Mismatch) (position : Position)
  | fragmentUnknown (name : String) (position : Position)
  | fragmentCycle (name : String) (position : Position)
  | fragmentType (condition parent : String) (position : Position)
  /-- The position is that of the operation, where there is one. -/
  | rootMissing (name : String) (position : Option Position)
  | subscription (position : Position)
  | fieldUnknown (field type : String) (position : Position)
  | fieldTypeUnknown (type : String) (position : Position)
  | selectionOnLeaf (field : String) (position : Position)
  | selectionMissing (field type : String) (position : Position)
  | conflict (output : String) (position : Position)
  | argumentMissing (argument field : String) (position : Position)
  | strayArguments (arguments : List String) (field : String) (position : Position)
  | argumentType (argument field : String) (mismatch : Mismatch) (position : Position)
  | directiveUnknown (name : String) (position : Position)
  | directiveCondition (name : String) (position : Position)
  | tooDeep (position : Position)
  | noOperation
  | operationNameRequired
  | operationUnknown (name : String)

namespace PlanError

def expectation (m : Mismatch) : String :=
  " is not of a valid type. Expected '" ++ m.expected ++ "', got '" ++ m.found ++ "'"

def message : PlanError → String
  | .missingQuery => "Missing query"
  | .unreadable error => error.message
  | .variableUnset name _ => "Variable '" ++ name ++ "' not found"
  | .variableUndeclared name _ => "Variable '" ++ name ++ "' is not defined by the operation"
  | .variableType name mismatch _ => "Variable '" ++ name ++ "'" ++ expectation mismatch
  | .fragmentUnknown name _ => "Fragment definition '" ++ name ++ "' not found"
  | .fragmentCycle name _ => "Fragment '" ++ name ++ "' spreads itself"
  | .fragmentType condition parent _ =>
    "Fragment on '" ++ condition ++ "' cannot be spread on '" ++ parent ++ "'"
  | .rootMissing name _ => "No such operation '" ++ name ++ "'"
  | .subscription _ => "Subscriptions are not supported"
  | .fieldUnknown field type _ => "Field '" ++ field ++ "' is not valid for type '" ++ type ++ "'"
  | .fieldTypeUnknown type _ => "Field type '" ++ type ++ "' is not valid"
  | .selectionOnLeaf field _ =>
    "Field '" ++ field ++ "' is of a scalar type, which should not specify fields"
  | .selectionMissing field type _ =>
    "Field '" ++ field ++ "' of type '" ++ type ++ "' must have a selection of subfields"
  | .conflict output _ =>
    "Fields '" ++ output ++ "' conflict because they select different fields or arguments"
  | .argumentMissing argument field _ =>
    "Required argument '" ++ argument ++ "' not found for field '" ++ field ++ "'"
  | .strayArguments arguments field _ =>
    "Argument(s) '[" ++ ", ".intercalate (arguments.map Text.quoted) ++ "]' invalid for '" ++
      field ++ "'"
  | .argumentType argument field mismatch _ =>
    "Argument '" ++ argument ++ "' of field '" ++ field ++ "'" ++ expectation mismatch
  | .directiveUnknown name _ => "Unknown directive '@" ++ name ++ "'"
  | .directiveCondition name _ => "Directive '@" ++ name ++ "' requires a Boolean 'if' argument"
  | .tooDeep _ => "Selection set too deep"
  | .noOperation => "No operation found"
  | .operationNameRequired =>
    "Must provide operation name if query contains multiple operations"
  | .operationUnknown name => "operationName '" ++ name ++ "' doesn't match any operation"

/-- Where in the query the reason lies, if it lies in it. -/
def positions : PlanError → List Position
  | .unreadable error => error.positions
  | .rootMissing _ p => p.toList
  | .missingQuery | .noOperation | .operationNameRequired | .operationUnknown _ => []
  | .variableUnset _ p | .variableUndeclared _ p | .variableType _ _ p | .fragmentUnknown _ p
  | .fragmentCycle _ p | .fragmentType _ _ p | .subscription p
  | .fieldUnknown _ _ p | .fieldTypeUnknown _ p | .selectionOnLeaf _ p | .selectionMissing _ _ p
  | .conflict _ p | .argumentMissing _ _ p | .strayArguments _ _ p | .argumentType _ _ _ p
  | .directiveUnknown _ p | .directiveCondition _ p | .tooDeep p => [p]

end PlanError

end GraphGate
