import GraphGate.Coercion
import GraphGate.Proofs.Table

/-! Grounded documents: variables have given way to the values that they stand for. -/
namespace GraphGate.Query

namespace Value

variable {ν μ ε : Type}

mutual

/-- Puts a value in the place of every variable. -/
def bind (f : ν → Value μ) : Value ν → Value μ
  | .var name => f name
  | .null => .null
  | .number n => .number n
  | .string s => .string s
  | .bool b => .bool b
  | .enum name => .enum name
  | .list elements => .list (bindElements f elements)
  | .object fields => .object (bindFields f fields)

def bindElements (f : ν → Value μ) : List (Value ν) → List (Value μ)
  | [] => []
  | v :: rest => bind f v :: bindElements f rest

def bindFields (f : ν → Value μ) : List (String × Value ν) → List (String × Value μ)
  | [] => []
  | (k, v) :: rest => (k, bind f v) :: bindFields f rest

end

variable {f : ν → Value μ} {constant : μ → Except ε Constant}

mutual

/-- Values that are put in place are then substituted into like the rest. -/
theorem substitute_bind : ∀ v : Value ν,
    (v.bind f).substitute constant = v.substitute fun name => (f name).substitute constant
  | .var _ | .null | .number _ | .string _ | .bool _ | .enum _ => rfl
  | .list elements => by rw [bind, substitute, substitute, substituteElements_bind elements]
  | .object fields => by rw [bind, substitute, substitute, substituteFields_bind fields]

theorem substituteElements_bind : ∀ elements : List (Value ν),
    substituteElements constant (bindElements f elements) =
      substituteElements (fun name => (f name).substitute constant) elements
  | [] => rfl
  | v :: rest => by
    rw [bindElements, substituteElements, substituteElements, substitute_bind v,
      substituteElements_bind rest]

theorem substituteFields_bind : ∀ fields : List (String × Value ν),
    substituteFields constant (bindFields f fields) =
      substituteFields (fun name => (f name).substitute constant) fields
  | [] => rfl
  | (k, v) :: rest => by
    rw [bindFields, substituteFields, substituteFields, substitute_bind v,
      substituteFields_bind rest]

end

variable {attempt : Empty → Except ε Constant}

mutual

/-- A constant has no place for a variable. -/
theorem substitute_constant : ∀ v : Constant, v.substitute attempt = .ok v
  | .var name => nomatch name
  | .null | .number _ | .string _ | .bool _ | .enum _ => rfl
  | .list elements => by
    rw [substitute, substituteElements_constant elements]
    rfl
  | .object fields => by
    rw [substitute, substituteFields_constant fields]
    rfl

theorem substituteElements_constant : ∀ elements : List Constant,
    substituteElements attempt elements = .ok elements
  | [] => rfl
  | v :: rest => by
    rw [substituteElements, substitute_constant v, substituteElements_constant rest]
    rfl

theorem substituteFields_constant : ∀ fields : List (String × Constant),
    substituteFields attempt fields = .ok fields
  | [] => rfl
  | (k, v) :: rest => by
    rw [substituteFields, substitute_constant v, substituteFields_constant rest]
    rfl

end

end Value

/-- A constant as it is written. -/
def Constant.toLiteral (v : Constant) : Literal := v.bind nofun

theorem Constant.substitute_toLiteral {ε : Type} {constant : String → Except ε Constant}
    (v : Constant) : v.toLiteral.substitute constant = .ok v := by
  rw [toLiteral, Value.substitute_bind, Value.substitute_constant]

/-- What stands for a variable: its value if it has one, or else the variable itself. -/
def Literal.ofVariable (values : Table Constant) (name : String) : Literal :=
  match values.get? name with
  | some v => v.toLiteral
  | none => .var name

def Literal.grounded (values : Table Constant) (v : Literal) : Literal :=
  v.bind (ofVariable values)

def Argument.grounded (values : Table Constant) (argument : Argument) : Argument :=
  { argument with value := argument.value.grounded values }

def Directive.grounded (values : Table Constant) (directive : Directive) : Directive :=
  { directive with arguments := directive.arguments.map (·.grounded values) }

def FieldHead.grounded (values : Table Constant) (head : FieldHead) : FieldHead :=
  { head with
    arguments := head.arguments.map (·.grounded values)
    directives := head.directives.map (·.grounded values) }

def Spread.grounded (values : Table Constant) (spread : Spread) : Spread :=
  { spread with directives := spread.directives.map (·.grounded values) }

def InlineHead.grounded (values : Table Constant) (head : InlineHead) : InlineHead :=
  { head with directives := head.directives.map (·.grounded values) }

mutual

/-- A selection with values in the place of the variables of its arguments and its directives, and
so on below it. -/
def Selection.grounded (values : Table Constant) : Selection → Selection
  | .field head selections => .field (head.grounded values) (groundedAll values selections)
  | .spread spread => .spread (spread.grounded values)
  | .inline head selections => .inline (head.grounded values) (groundedAll values selections)

def groundedAll (values : Table Constant) : List Selection → List Selection
  | [] => []
  | selection :: rest => selection.grounded values :: groundedAll values rest

end

theorem isEmpty_groundedAll {values : Table Constant} {selections : List Selection} :
    (groundedAll values selections).isEmpty = selections.isEmpty := by
  cases selections <;> rfl

def Operation.grounded (values : Table Constant) (operation : Operation) : Operation :=
  { operation with selections := groundedAll values operation.selections }

/-- A grounded operation that declares nothing any more. -/
def Operation.closed (values : Table Constant) (operation : Operation) : Operation :=
  { operation.grounded values with declarations := [] }

def Fragment.grounded (values : Table Constant) (fragment : Fragment) : Fragment :=
  { fragment with selections := groundedAll values fragment.selections }

/-- Changes the operation that goes by a name; one without a name goes by any. -/
def Operations.update (label : Option String) (f : Operation → Operation) : Operations → Operations
  | .single operation => .single (f operation)
  | .named operations => .named (Table.mapValues
      (fun name operation => if some name = label then f operation else operation) operations)

namespace Document

/-- A document in which variables have given way to values, in an operation and in all fragments. -/
def grounded (label : Option String) (values : Table Constant) (document : Document) :
    Document where
  operations := document.operations.update label (·.grounded values)
  fragments := Table.mapValues (fun _ fragment => fragment.grounded values) document.fragments

/-- The same with nothing declared. -/
def closed (label : Option String) (values : Table Constant) (document : Document) : Document where
  operations := document.operations.update label (·.closed values)
  fragments := Table.mapValues (fun _ fragment => fragment.grounded values) document.fragments

end Document

end GraphGate.Query
