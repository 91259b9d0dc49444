import GraphGate.Json.Printer
import GraphGate.Schema.Basic
import GraphGate.Text.Quoted

/-! Descriptions of definitions for diagnostics: each part with its name, on one line. -/
namespace GraphGate.Description

variable {ρ : Type}

/-- A title and parts with names, in braces. -/
def record (title : String) (parts : List (String × String)) : String :=
  let parts := parts.map fun (name, part) => name ++ ": " ++ part
  title ++ " \x7b " ++ ", ".intercalate parts ++ " \x7d"

/-- Keys in quotation marks with their values, in braces. -/
def table (entries : List (String × String)) : String :=
  let entries := entries.map fun (key, value) => Text.quoted key ++ ": " ++ value
  "\x7b" ++ ", ".intercalate entries ++ "\x7d"

def application (title part : String) : String := title ++ "(" ++ part ++ ")"

def flag (b : Bool) : String := if b then "true" else "false"

def type : TypeRef → String
  | .named name nullable =>
    record "Type" [("base", application "Named" (application "Name" (Text.quoted name))),
      ("nullable", flag nullable)]
  | .list element nullable =>
    record "Type" [("base", application "List" (type element)), ("nullable", flag nullable)]

mutual

def value : Json → String
  | .null => "Null"
  | .bool b => application "Bool" (flag b)
  | .num n => application "Number" (String.ofList n.text)
  | .str s => application "String" (Text.quoted s)
  | .arr elements => "Array [" ++ ", ".intercalate (values elements) ++ "]"
  | .obj fields => "Object " ++ table (fieldValues fields)

def values : List Json → List String
  | [] => []
  | v :: rest => value v :: values rest

def fieldValues : List (String × Json) → List (String × String)
  | [] => []
  | (k, v) :: rest => (k, value v) :: fieldValues rest

end

def optional : Option String → String
  | none => "None"
  | some s => application "Some" s

def argument (a : ArgumentDefinition) : String :=
  record "ArgumentDefinition" [("name", Text.quoted a.name), ("ty", type a.type),
    ("default_value", optional (a.default.map value))]

def resolution : Resolution ρ → String
  | .callable _ => "Callable"
  | .method service name => application "ServiceMethod" ("@" ++ service ++ "::" ++ name)
  | .property key => application "Property" key
  | .default => "Default"

def field (f : FieldDefinition ρ) : String :=
  record "FieldDefinition" [("name", Text.quoted f.name), ("ty", type f.type),
    ("arguments", table (f.arguments.map fun a => (a.name, argument a))),
    ("resolution", resolution f.resolution)]

def object (t : ObjectType ρ) : String :=
  record "ObjectType" [("name", Text.quoted t.name),
    ("fields", table (t.fields.map fun f => (f.name, field f))),
    ("type_resolver", flag t.resolver.isSome)]

end GraphGate.Description
