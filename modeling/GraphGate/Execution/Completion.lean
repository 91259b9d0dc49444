import GraphGate.Coercion
import GraphGate.Execution.Field

/-! The completion of values at their declared types. A failure leaves null at the nearest place
that may be null, and everything else is still resolved. -/
namespace GraphGate.Execution

variable {ρ α β : Type}

/-- The value of a place, none if null would have to stand where it may not; and the errors found
there and below. -/
structure Completion (α : Type) where
  value : Option α
  errors : List ResponseError

namespace Completion

def ok (a : α) : Completion α := ⟨some a, []⟩

def failed (error : ResponseError) : Completion α := ⟨none, [error]⟩

def map (f : α → β) (c : Completion α) : Completion β := ⟨c.value.map f, c.errors⟩

/-- Both values, if both are there, and all errors. -/
def both (f : α → β → γ) (a : Completion α) (b : Completion β) : Completion γ :=
  ⟨a.value.bind fun x => b.value.map (f x), a.errors ++ b.errors⟩

/-- A nullable place takes null for a missing value. -/
def orNull (nullable : Bool) (c : Completion Json) : Completion Json :=
  match c.value with
  | some _ => c
  | none => if nullable then ⟨some .null, c.errors⟩ else c

end Completion

/-- The built-in scalars and enums take only values of their own, and ids become strings. -/
def leaf? (type : TypeDefinition ρ) (value : Json) : Option Json :=
  match type with
  | .scalar "Int" => match value with
    | .num (.int n) => if Coercion.isInt32 n then some value else none
    | _ => none
  | .scalar "Float" => match value with
    | .num _ => some value
    | _ => none
  | .scalar "String" => match value with
    | .str _ => some value
    | _ => none
  | .scalar "ID" => match value with
    | .str _ => some value
    | .num (.int n) => some (.str (toString n))
    | _ => none
  | .scalar "Boolean" => match value with
    | .bool _ => some value
    | _ => none
  | .scalar _ => some value
  | .enum _ values => match value with
    | .str name => if values.contains name then some value else none
    | _ => none
  | .object _ | .input .. => none

/-- All elements of a list, with their indexes from `index` on. -/
def completeElements (element : Json → Path → Dialogue ρ (Completion Json)) (path : Path) :
    Nat → List Json → Dialogue ρ (Completion (List Json))
  | _, [] => pure (.ok [])
  | index, value :: rest => do
    let first ← element value (path ++ [.index index])
    let more ← completeElements element path (index + 1) rest
    return .both (· :: ·) first more

/-- A value at a type; `object` resolves what is selected on an object. -/
def complete (schema : Schema ρ) (node : FieldNode)
    (object : ObjectType ρ → Json → Path → Dialogue ρ (Completion Json)) :
    TypeRef → Json → Path → Dialogue ρ (Completion Json)
  | type, .null, path =>
    pure (if type.nullable then .ok .null else .failed (.ofField (.nullValue path) node path))
  | .list element nullable, .arr elements, path => do
    let elements ← completeElements (complete schema node object element) path 0 elements
    return (elements.map .arr).orNull nullable
  | .list element nullable, value, path =>
    let error := FieldError.invalidValue (TypeRef.list element nullable).text value
    pure ((Completion.failed (.ofField error node path)).orNull nullable)
  | .named name nullable, value, path =>
    match schema.find? name with
    | some (.object type) => do
      let completed ← object type value path
      return completed.orNull nullable
    | some definition =>
      match leaf? definition value with
      | some value => pure (.ok value)
      | none =>
        let error := FieldError.invalidValue definition.name value
        pure ((Completion.failed (.ofField error node path)).orNull nullable)
    | none =>
      let error := FieldError.invalidValue name value
      pure ((Completion.failed (.ofField error node path)).orNull nullable)

mutual

/-- A field of an object: its value, and its place if it has none. -/
def completeField (setting : Setting ρ) (plan : Plan) :
    FieldNode → ObjectType ρ → Json → Path → Dialogue ρ (Completion Json)
  | ⟨aliasName, name, arguments, children, position⟩, container, parent, path =>
    let node : FieldNode := ⟨aliasName, name, arguments, children, position⟩
    let below : ObjectType ρ → Json → Path → Dialogue ρ (Completion Json) :=
      fun type value path => do
        let pairs ← completeFields setting plan children type value path
        return pairs.map fun pairs => .obj (Table.ofPairs pairs)
    if name = Plan.typename then pure (.ok (.str container.name))
    else match container.field? name with
      | none =>
        pure ⟨some .null, [.ofField (.fieldUndefined container.name name) node path]⟩
      | some definition => do
        match ← resolve setting definition node container.name parent path plan with
        | .error e =>
          return (Completion.failed (.ofField e node path)).orNull definition.type.nullable
        | .ok value => complete setting.schema node below definition.type value path

/-- The selected fields of an object in their order, each under its output name. -/
def completeFields (setting : Setting ρ) (plan : Plan) :
    List FieldNode → ObjectType ρ → Json → Path → Dialogue ρ (Completion (List (String × Json)))
  | [], _, _, _ => pure (.ok [])
  | node :: rest, container, parent, path => do
    let first ← completeField setting plan node container parent
      (path ++ [.field node.outputName])
    let more ← completeFields setting plan rest container parent path
    return .both (fun value pairs => (node.outputName, value) :: pairs) first more

end

/-- The execution of a plan on the value at the root. -/
def execute (setting : Setting ρ) (root : Json) (plan : Plan) : Dialogue ρ Envelope := do
  match ← Dialogue.operationDecision setting.capabilities plan with
  | .deny denial => return .rejected (.ofOperation denial)
  | .allow =>
    match setting.schema.object? plan.root with
    | none => return .rejected (.ofPlan (.rootMissing plan.root none))
    | some type => do
      let completed ← completeFields setting plan plan.fields type root []
      return ⟨(completed.value.map fun pairs => .obj (Table.ofPairs pairs)).getD .null,
        completed.errors⟩

end GraphGate.Execution
