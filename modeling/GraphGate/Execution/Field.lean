import GraphGate.Execution.Dialogue
import GraphGate.Registry
import GraphGate.Schema.Basic

/-! The resolution of one field: an event, the policy, the value, and an event again. -/
namespace GraphGate.Execution

variable {ρ : Type}

/-- What the execution of every operation starts from. -/
structure Setting (ρ : Type) where
  schema : Schema ρ
  registry : Registry ρ
  capabilities : Capabilities

def CallFailure.fieldError (field : String) : CallFailure → FieldError
  | .cancelled => .cancelled field
  | .timedOut => .timedOut field
  | .panicked => .panicked field
  | .failed message => .failed message

def invoke (resolver : ρ) (invocation : Invocation) : Dialogue ρ (Except FieldError Json) := do
  let result ← Dialogue.called resolver invocation
  return result.mapError (CallFailure.fieldError invocation.context.field.name)

/-- The value under a key of the parent, or null. -/
def property (parent : Json) (key : String) : Json := (parent.get? key).getD .null

theorem property_eq_iff {parent value : Json} {key : String} : property parent key = value ↔
    parent.get? key = some value ∨ parent.get? key = none ∧ value = .null := by
  rw [property]
  cases parent.get? key with
  | none => simp [eq_comm]
  | some => simp

/-- The method of a service, or why there is none. -/
def method (registry : Registry ρ) (service name field : String) : Except FieldError ρ :=
  if registry.has service then
    match registry.get? service with
    | none => .error (.serviceNotFound service field)
    | some methods =>
      match methods.get? name with
      | none => .error (.methodNotFound name service field)
      | some resolver => .ok resolver
  else .error (.serviceNotFound service field)

/-- The resolver of the object type inside a field's type. -/
def typeResolver? (schema : Schema ρ) (type : TypeRef) : Option ρ :=
  (schema.object? type.innermost).bind (·.resolver)

/-- The value of a field as its definition says. -/
def dispatch (setting : Setting ρ) (resolution : Resolution ρ) (invocation : Invocation) :
    Dialogue ρ (Except FieldError Json) :=
  let field := invocation.context.field
  match resolution with
  | .callable resolver => invoke resolver invocation
  | .method service name =>
    match method setting.registry service name field.name with
    | .error e => pure (.error e)
    | .ok resolver => invoke resolver invocation
  | .property key => pure (.ok (property invocation.parent key))
  | .default =>
    match typeResolver? setting.schema field.type with
    | some resolver => invoke resolver invocation
    | none => pure (.ok (property invocation.parent field.name))

/-- The resolved value: the dispatched one as the subscribers leave it. What subscribers put into
the event before the dispatch is lost. -/
def resolve (setting : Setting ρ) (definition : FieldDefinition ρ) (node : FieldNode)
    (parentType : String) (parent : Json) (path : Path) (plan : Plan) :
    Dialogue ρ (Except FieldError Json) := do
  let field := definition.toFieldSignature
  let event : Event := ⟨field, node.children, path, none⟩
  let context : Context := ⟨field, node, parentType, path, plan⟩
  discard (Dialogue.published .preResolve event)
  match ← Dialogue.fieldDecision setting.capabilities context with
  | .deny denial => return .error (.denied denial)
  | .allow =>
    let arguments := effectiveArguments field node.arguments
    match ← dispatch setting definition.resolution ⟨parent, arguments, context⟩ with
    | .error e => return .error e
    | .ok value =>
      let value ← Dialogue.published .postResolve { event with value := some value }
      return .ok (value.getD .null)

end GraphGate.Execution
