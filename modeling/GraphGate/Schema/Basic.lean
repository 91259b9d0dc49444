import GraphGate.Json.Basic
import GraphGate.TypeRef

/-! Types, their fields, and how the value of a field is found. `ρ` stands for the resolvers that
the definitions refer to. -/
namespace GraphGate

/-- An argument of a field, or a field of an input object. -/
structure ArgumentDefinition where
  name : String
  type : TypeRef
  default : Option Json

/-- How the value of a field is found. -/
inductive Resolution (ρ : Type) where
  /-- By a resolver of its own. -/
  | callable (resolver : ρ)
  /-- By a method of a registered service. -/
  | method (service name : String)
  /-- Under a key of the parent value. -/
  | property (key : String)
  /-- By the resolver of the field's type, or else under the field's name in the parent value. -/
  | default

/-- What is known of a field from outside. -/
structure FieldSignature where
  name : String
  type : TypeRef
  arguments : List ArgumentDefinition

structure FieldDefinition (ρ : Type) extends FieldSignature where
  resolution : Resolution ρ

structure ObjectType (ρ : Type) where
  name : String
  fields : List (FieldDefinition ρ)
  /-- Resolves the fields of this type that say nothing else. -/
  resolver : Option ρ

inductive TypeDefinition (ρ : Type) where
  | scalar (name : String)
  | enum (name : String) (values : List String)
  | input (name : String) (fields : List ArgumentDefinition)
  | object (type : ObjectType ρ)

variable {ρ : Type}

/-- Puts an element where one of its name is, or at the end. -/
def placeNamed {α : Type} (name : α → String) (a : α) : List α → List α
  | [] => [a]
  | b :: rest => if name b = name a then a :: rest else b :: placeNamed name a rest

/-- A later definition of a name takes the place of an earlier one. -/
def withoutRepeats {α : Type} (name : α → String) (as : List α) : List α :=
  as.foldl (fun placed a => placeNamed name a placed) []

namespace TypeDefinition

def name : TypeDefinition ρ → String
  | .scalar name => name
  | .enum name _ => name
  | .input name _ => name
  | .object type => type.name

/-- Whether arguments and fields of input objects may have the type. -/
def isInput : TypeDefinition ρ → Bool
  | .object _ => false
  | _ => true

/-- Whether fields of objects may have the type. -/
def isOutput : TypeDefinition ρ → Bool
  | .input .. => false
  | _ => true

end TypeDefinition

def ObjectType.field? (type : ObjectType ρ) (name : String) : Option (FieldDefinition ρ) :=
  type.fields.find? (·.name = name)

/-- The place of a field in a schema. -/
def coordinate (type field : String) : String := type ++ "." ++ field

structure Schema (ρ : Type) where
  types : List (TypeDefinition ρ)
  query : String
  mutation : Option String

namespace Schema

def find? (schema : Schema ρ) (name : String) : Option (TypeDefinition ρ) :=
  schema.types.find? (·.name = name)

def object? (schema : Schema ρ) (name : String) : Option (ObjectType ρ) :=
  match schema.find? name with
  | some (.object type) => some type
  | _ => none

end Schema

end GraphGate
