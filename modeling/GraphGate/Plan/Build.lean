import GraphGate.Plan.Selections
import GraphGate.Text.Blank

/-! The plan of a query: which operation is meant, what its variables hold, what it selects. -/
namespace GraphGate

open Query

variable {ρ : Type}

namespace Plan

/-- The value of a declared variable: what the request supplies, or else the default. -/
def variableValue (schema : Schema ρ) (supplied : Table Json) (definition : VariableDefinition) :
    Except PlanError (Option Constant) :=
  let value := match supplied.get? definition.name with
    | some value => some (Constant.ofJson value)
    | none => definition.default
  match value with
  | some value =>
    match Coercion.coerce schema value definition.type with
    | .ok _ => .ok (some value)
    | .error mismatch => .error (.variableType definition.name mismatch definition.position)
  | none =>
    if definition.type.nullable then .ok none
    else .error (.variableUnset definition.name definition.position)

def variablePairs (schema : Schema ρ) (supplied : Table Json) :
    List VariableDefinition → Except PlanError (List (String × Option Constant))
  | [] => .ok []
  | definition :: rest => do
    let value ← variableValue schema supplied definition
    let more ← variablePairs schema supplied rest
    return (definition.name, value) :: more

/-- The variables of an operation; what is supplied for others is ignored. -/
def bindings (schema : Schema ρ) (supplied : Table Json) (definitions : List VariableDefinition) :
    Except PlanError Bindings :=
  (variablePairs schema supplied definitions).map Table.ofPairs

/-- The name of the root type for an operation. -/
def rootName (schema : Schema ρ) (operation : Operation) : Except PlanError String :=
  match operation.type with
  | .query => .ok schema.query
  | .mutation =>
    match schema.mutation with
    | some name => .ok name
    | none => .error (.rootMissing "mutation" (some operation.position))
  | .subscription => .error (.subscription operation.position)

def ofOperation (schema : Schema ρ) (depthLimit : Nat) (fragments : Table Fragment)
    (name : Option String) (operation : Operation) (supplied : Table Json) :
    Except PlanError Plan := do
  let root ← rootName schema operation
  let container ← match schema.object? root with
    | some type => pure type
    | none => throw (.rootMissing root (some operation.position))
  let bindings ← bindings schema supplied operation.declarations
  let fields ← selected ⟨schema, fragments, bindings, depthLimit⟩ container 1 []
    operation.selections
  return ⟨name, operation.type, root, fields⟩

/-- The operation that is meant, and the name it goes by: a document's only operation needs no
name, and an operation without a name goes by any. -/
def chosen (operations : Operations) (name : Option String) :
    Except PlanError (Option String × Operation) :=
  match operations, name with
  | .single operation, name => .ok (name, operation)
  | .named [], none => .error .noOperation
  | .named [(name, operation)], none => .ok (some name, operation)
  | .named _, none => .error .operationNameRequired
  | .named operations, some name =>
    match Table.get? name operations with
    | some operation => .ok (some name, operation)
    | none => .error (.operationUnknown name)

def ofDocument (schema : Schema ρ) (depthLimit : Nat) (document : Document)
    (name : Option String) (supplied : Table Json) : Except PlanError Plan := do
  let (name, operation) ← chosen document.operations name
  ofOperation schema depthLimit document.fragments name operation supplied

/-- The plan of a query text; a blank one counts as missing. -/
def ofQuery (schema : Schema ρ) (depthLimit : Nat) (query : Option String)
    (name : Option String) (supplied : Table Json) : Except PlanError Plan :=
  match query with
  | none => .error .missingQuery
  | some text =>
    if Text.isBlankText text then .error .missingQuery
    else match Document.parse text with
      | .error e => .error (.unreadable e)
      | .ok document => ofDocument schema depthLimit document name supplied

end Plan

end GraphGate
