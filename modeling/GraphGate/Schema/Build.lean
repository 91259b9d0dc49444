import GraphGate.Schema.Basic

/-! A schema is accepted if its names are unique, its roots are objects, and every type that is
referred to is there and fits its place. -/
namespace GraphGate

inductive SchemaError where
  | duplicateType (name : String)
  | missingRoot (name : String)
  | rootNotObject (name : String)
  | unknownType (name coordinate : String)
  | notInput (name coordinate : String)
  | notOutput (name coordinate : String)
deriving DecidableEq

def SchemaError.message : SchemaError → String
  | .duplicateType name => "Type '" ++ name ++ "' is defined more than once"
  | .missingRoot name => "Root type '" ++ name ++ "' is not defined"
  | .rootNotObject name => "Root type '" ++ name ++ "' must be an object type"
  | .unknownType name coordinate =>
    "Unknown type '" ++ name ++ "' referenced by '" ++ coordinate ++ "'"
  | .notInput name coordinate =>
    "Type '" ++ name ++ "' used by '" ++ coordinate ++ "' is not an input type"
  | .notOutput name coordinate =>
    "Type '" ++ name ++ "' used by '" ++ coordinate ++ "' is not an output type"

namespace Schema

variable {ρ : Type}

def builtinScalars : List String := ["Int", "Float", "String", "Boolean", "ID"]

/-- Whether a reference stands where values go in or where they come out. -/
inductive Place where
  | input
  | output
deriving DecidableEq

/-- A type named by a definition, and where. -/
structure Reference where
  type : String
  place : Place
  coordinate : String

/-- The type of a field, and then those of its arguments. -/
def fieldReferences (type : String) (field : FieldDefinition ρ) : List Reference :=
  let owner := coordinate type field.name
  ⟨field.type.innermost, .output, owner⟩ :: field.arguments.map fun argument =>
    ⟨argument.type.innermost, .input, owner ++ "(" ++ argument.name ++ ":)"⟩

def references : TypeDefinition ρ → List Reference
  | .object type => type.fields.flatMap (fieldReferences type.name)
  | .input name fields => fields.map fun field =>
    ⟨field.type.innermost, .input, coordinate name field.name⟩
  | .scalar _ | .enum .. => []

/-- The first name that is used before it comes. -/
def duplicate? (used : List String) : List String → Option String
  | [] => none
  | name :: rest => if used.contains name then some name else duplicate? (name :: used) rest

def checkRoot (schema : Schema ρ) (name : String) : Except SchemaError Unit :=
  match schema.find? name with
  | some (.object _) => .ok ()
  | some _ => .error (.rootNotObject name)
  | none => .error (.missingRoot name)

def checkReference (schema : Schema ρ) (r : Reference) : Except SchemaError Unit :=
  match schema.find? r.type, r.place with
  | none, _ => .error (.unknownType r.type r.coordinate)
  | some definition, .input =>
    if definition.isInput then .ok () else .error (.notInput r.type r.coordinate)
  | some definition, .output =>
    if definition.isOutput then .ok () else .error (.notOutput r.type r.coordinate)

/-- The schema of some types and root names; the built-in scalars come first. The first fault is
reported: a name defined twice, then the roots, then the references in the order they are made. -/
def build (definitions : List (TypeDefinition ρ)) (query : String) (mutation : Option String) :
    Except SchemaError (Schema ρ) :=
  match duplicate? builtinScalars (definitions.map (·.name)) with
  | some name => .error (.duplicateType name)
  | none => do
    let schema : Schema ρ := ⟨builtinScalars.map .scalar ++ definitions, query, mutation⟩
    schema.checkRoot query
    mutation.forM schema.checkRoot
    (definitions.flatMap references).forM schema.checkReference
    return schema

end Schema

end GraphGate
