import GraphGate.Plan.Basic

/-! The arguments of a field: variables replaced, every value coerced to the declared type. -/
namespace GraphGate.Plan

open Query

variable {ρ : Type}

/-- The declared variables; those without a value are declared and unset. -/
abbrev Bindings := Table (Option Constant)

/-- The constant in place of a variable inside a value: null if it is unset. -/
def variableConstant (bindings : Bindings) (position : Position) (name : String) :
    Except PlanError Constant :=
  match bindings.get? name with
  | some value => .ok (value.getD .null)
  | none => .error (.variableUndeclared name position)

/-- The value of an argument; none if it is an unset variable as a whole. -/
def resolveArgument (bindings : Bindings) (position : Position) (value : Literal) :
    Except PlanError (Option Constant) :=
  match value with
  | .var name =>
    match bindings.get? name with
    | some value => .ok value
    | none => .error (.variableUndeclared name position)
  | value => (value.substitute (variableConstant bindings position)).map some

/-- The arguments as a table of values and their positions. -/
def suppliedTable (arguments : List Argument) : Table Argument :=
  Table.ofPairs ((arguments.filter (·.name != typename)).map fun a => (a.name, a))

/-- The value of a declared argument, if it is supplied. -/
def argumentValue (schema : Schema ρ) (bindings : Bindings) (position : Position)
    (field : String) (supplied : Table Argument) (definition : ArgumentDefinition) :
    Except PlanError (Option Json) := do
  let value ← match supplied.get? definition.name with
    | some argument => resolveArgument bindings argument.position argument.value
    | none => pure none
  match value with
  | some value =>
    match Coercion.coerce schema value definition.type with
    | .ok coerced => return some coerced
    | .error mismatch => throw (.argumentType definition.name field mismatch position)
  | none =>
    if !definition.type.nullable && definition.default.isNone then
      throw (.argumentMissing definition.name field position)
    else return none

def argumentValues (schema : Schema ρ) (bindings : Bindings) (position : Position)
    (field : String) (supplied : Table Argument) :
    List ArgumentDefinition → Except PlanError (Table Json)
  | [] => .ok []
  | definition :: rest => do
    let value ← argumentValue schema bindings position field supplied definition
    let more ← argumentValues schema bindings position field supplied rest
    return match value with
      | some value => (definition.name, value) :: more
      | none => more

/-- The arguments of a field in the order they are declared. -/
def arguments (schema : Schema ρ) (bindings : Bindings) (head : FieldHead)
    (definition : FieldDefinition ρ) : Except PlanError (Table Json) := do
  let supplied := suppliedTable head.arguments
  let values ← argumentValues schema bindings head.position definition.name supplied
    definition.arguments
  match supplied.names.filter fun name => !(definition.arguments.map (·.name)).contains name with
  | [] => return values
  | stray => throw (.strayArguments stray definition.name head.position)

end GraphGate.Plan
