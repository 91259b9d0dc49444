import GraphGate.Json.Basic
import GraphGate.TypeRef

/-! Queries as they are written: operations, fragments, selections, directives and values. -/
namespace GraphGate.Query

/-- A line and a column, both counted from one. -/
structure Position where
  line : Nat
  column : Nat
deriving DecidableEq

/-- A value in which variables are given as `ν`. -/
inductive Value (ν : Type) where
  | var (name : ν)
  | null
  | number (value : Number)
  | string (value : String)
  | bool (value : Bool)
  | enum (name : String)
  | list (elements : List (Value ν))
  | object (fields : List (String × Value ν))

/-- A value without variables. -/
abbrev Constant := Value Empty

/-- A value that may name variables. -/
abbrev Literal := Value String

/-- What stands after a name and a colon; the position is that of the value. -/
structure Argument where
  name : String
  position : Position
  value : Literal

structure Directive where
  position : Position
  name : String
  arguments : List Argument

/-- A field without what is selected below it. -/
structure FieldHead where
  position : Position
  aliasName : Option String
  name : String
  arguments : List Argument
  directives : List Directive

structure Spread where
  position : Position
  name : String
  directives : List Directive

/-- An inline fragment without its selections. -/
structure InlineHead where
  position : Position
  condition : Option String
  directives : List Directive

inductive Selection where
  | field (head : FieldHead) (selections : List Selection)
  | spread (spread : Spread)
  | inline (head : InlineHead) (selections : List Selection)

/-- A declared variable; the position is that of its name. -/
structure VariableDefinition where
  position : Position
  name : String
  type : TypeRef
  default : Option Constant

inductive OperationType where
  | query
  | mutation
  | subscription
deriving DecidableEq

structure Operation where
  position : Position
  type : OperationType
  declarations : List VariableDefinition
  selections : List Selection

structure Fragment where
  position : Position
  condition : String
  selections : List Selection

/-- A document holds one operation without a name, or any number of named ones. -/
inductive Operations where
  | single (operation : Operation)
  | named (operations : List (String × Operation))

structure Document where
  operations : Operations
  fragments : List (String × Fragment)

end GraphGate.Query
