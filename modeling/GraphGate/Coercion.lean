import GraphGate.Query.Basic
import GraphGate.Schema.Basic

/-! Input coercion: the value that a literal stands for at a type. -/
namespace GraphGate

/-- What a type wanted and what was there. -/
structure Mismatch where
  expected : String
  found : String
deriving DecidableEq

namespace Query.Constant

mutual

/-- The value as JSON; enum values become strings. -/
def toJson : Constant → Json
  | .var name => nomatch name
  | .null => .null
  | .number n => .num n
  | .string s => .str s
  | .bool b => .bool b
  | .enum name => .str name
  | .list elements => .arr (elementsToJson elements)
  | .object fields => .obj (fieldsToJson fields)

def elementsToJson : List Constant → List Json
  | [] => []
  | v :: rest => toJson v :: elementsToJson rest

def fieldsToJson : List (String × Constant) → List (String × Json)
  | [] => []
  | (k, v) :: rest => (k, toJson v) :: fieldsToJson rest

end

mutual

def ofJson : Json → Constant
  | .null => .null
  | .bool b => .bool b
  | .num n => .number n
  | .str s => .string s
  | .arr elements => .list (elementsOfJson elements)
  | .obj fields => .object (fieldsOfJson fields)

def elementsOfJson : List Json → List Constant
  | [] => []
  | v :: rest => ofJson v :: elementsOfJson rest

def fieldsOfJson : List (String × Json) → List (String × Constant)
  | [] => []
  | (k, v) :: rest => (k, ofJson v) :: fieldsOfJson rest

end

/-- How a message calls the value. -/
def describe : Constant → String
  | .var name => nomatch name
  | .null => "null"
  | .number (.float _) => "Float"
  | .number (.int _) => "Int"
  | .string _ => "String"
  | .bool _ => "Boolean"
  | .enum name => name
  | .list _ => "List"
  | .object _ => "Object"

end Query.Constant

namespace Query.Value

variable {ν ε : Type}

mutual

/-- Puts constants in the place of variables; the first variable without one decides. -/
def substitute (constant : ν → Except ε Constant) : Value ν → Except ε Constant
  | .var name => constant name
  | .null => .ok .null
  | .number n => .ok (.number n)
  | .string s => .ok (.string s)
  | .bool b => .ok (.bool b)
  | .enum name => .ok (.enum name)
  | .list elements => (substituteElements constant elements).map .list
  | .object fields => (substituteFields constant fields).map .object

def substituteElements (constant : ν → Except ε Constant) :
    List (Value ν) → Except ε (List Constant)
  | [] => .ok []
  | v :: rest => do
    let v ← substitute constant v
    let rest ← substituteElements constant rest
    return v :: rest

def substituteFields (constant : ν → Except ε Constant) :
    List (String × Value ν) → Except ε (List (String × Constant))
  | [] => .ok []
  | (k, v) :: rest => do
    let v ← substitute constant v
    let rest ← substituteFields constant rest
    return (k, v) :: rest

end

end Query.Value

namespace Coercion

open Query

variable {ρ : Type}

/-- The whole numbers of 32 bits. -/
def isInt32 (n : Int) : Bool := -Int.pow 2 31 ≤ n && n < Int.pow 2 31

/-- A value that is not null at a scalar type; types that are not built in take every value. -/
def scalar (type : String) (v : Constant) : Except Mismatch Json :=
  let mismatch := .error ⟨type, v.describe⟩
  match type with
  | "Int" => match v with
    | .number (.int n) => if isInt32 n then .ok (.num (.int n)) else mismatch
    | _ => mismatch
  | "Float" => match v with
    | .number n => .ok (.num n)
    | _ => mismatch
  | "String" => match v with
    | .string s => .ok (.str s)
    | _ => mismatch
  | "ID" => match v with
    | .string s => .ok (.str s)
    | .number (.int n) => .ok (.str (toString n))
    | _ => mismatch
  | "Boolean" => match v with
    | .bool b => .ok (.bool b)
    | _ => mismatch
  | _ => .ok v.toJson

/-- A value at an enum type: one of its names, as such or as a string. -/
def enum (type : String) (values : List String) (v : Constant) : Except Mismatch Json :=
  match v with
  | .enum name | .string name =>
    if values.contains name then .ok (.str name) else .error ⟨type, v.describe⟩
  | _ => .error ⟨type, v.describe⟩

/-- The value of an argument for each type that may be asked of it. -/
abbrev Supplied := TypeRef → Except Mismatch Json

/-- The fields of an input object in the order they are declared: what was supplied, or else the
default. -/
def inputFields (type : String) (supplied : Table Supplied) :
    List ArgumentDefinition → Except Mismatch (Table Json)
  | [] => .ok []
  | field :: rest =>
    match supplied.get? field.name, field.default with
    | some value, _ => do
      let value ← value field.type
      let rest ← inputFields type supplied rest
      return (field.name, value) :: rest
    | none, some default => do
      let rest ← inputFields type supplied rest
      return (field.name, default) :: rest
    | none, none =>
      if field.type.nullable then inputFields type supplied rest
      else .error ⟨type, "object without field '" ++ field.name ++ "'"⟩

/-- An object at an input type: all its fields are declared there. -/
def inputObject (type : String) (fields : List ArgumentDefinition) (supplied : Table Supplied) :
    Except Mismatch Json := do
  let object ← inputFields type supplied fields
  match supplied.names.find? fun name => !(fields.map (·.name)).contains name with
  | some stray => throw ⟨type, "object with unknown field '" ++ stray ++ "'"⟩
  | none => return .obj object

/-- A value at a named type; `supplied` are the coercions of an object's fields. -/
def atName (schema : Schema ρ) (v : Constant) (supplied : Table Supplied) (type : String) :
    Except Mismatch Json :=
  match schema.find? type with
  | some (.scalar _) => scalar type v
  | some (.enum _ values) => enum type values v
  | some (.input _ fields) =>
    match v with
    | .object _ => inputObject type fields supplied
    | _ => .error ⟨type, v.describe⟩
  | some (.object _) | none => .error ⟨type, v.describe⟩

/-- A value that is no list stands for the list of itself. -/
def wrapped (coerce : String → Except Mismatch Json) : Supplied
  | .named type _ => coerce type
  | .list element _ => (wrapped coerce element).map fun v => .arr [v]

mutual

/-- The value that a constant stands for at a type. -/
def coerce (schema : Schema ρ) : Constant → Supplied
  | .null, type => if type.nullable then .ok .null else .error ⟨type.text, "null"⟩
  | .list elements, .list element _ => (coerceElements schema elements element).map .arr
  | .list elements, .named type _ => atName schema (.list elements) [] type
  | .object fields, type =>
    wrapped (atName schema (.object fields) (coerceFields schema fields)) type
  | v, type => wrapped (atName schema v []) type

def coerceElements (schema : Schema ρ) : List Constant → TypeRef → Except Mismatch (List Json)
  | [], _ => .ok []
  | v :: rest, type => do
    let v ← coerce schema v type
    let rest ← coerceElements schema rest type
    return v :: rest

def coerceFields (schema : Schema ρ) : List (String × Constant) → Table Supplied
  | [] => []
  | (k, v) :: rest => (k, coerce schema v) :: coerceFields schema rest

end

end Coercion

end GraphGate
