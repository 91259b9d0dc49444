import GraphGate.Execution.Context

/-! The gate: a policy decides on operations and fields, for the categories that are switched on. -/
namespace GraphGate

inductive Target where
  | operation (name : Option String)
  | field (name : String) (path : Path)
deriving DecidableEq

structure Denial where
  message : String
  target : Target
deriving DecidableEq

inductive Decision where
  | allow
  | deny (denial : Denial)
deriving DecidableEq

def Decision.isAllow : Decision → Bool
  | .allow => true
  | .deny _ => false

/-- A refusal of a whole operation. -/
def Denial.ofOperation (plan : Plan) (message : String) : Denial := ⟨message, .operation plan.name⟩

/-- A refusal of one field at one place. -/
def Denial.ofField (context : Context) (message : String) : Denial :=
  ⟨message, .field context.field.name context.path⟩

/-- What decides. A policy answers at once, and from its argument alone: it takes no time, it is not
stopped by what stops resolvers, and it says the same whenever it is asked. All that is said about
the time that executions take, and about what stops them, rests on that. -/
structure Policy where
  checkOperation : Plan → Decision
  checkField : Context → Decision

namespace Policy

def allowAll : Policy := ⟨fun _ => .allow, fun _ => .allow⟩

def denyAll (message : String) : Policy where
  checkOperation plan := .deny (.ofOperation plan message)
  checkField context := .deny (.ofField context message)

/-- Denies the operations of some names and the fields at some coordinates. -/
def denyList (operations fields : List String) : Policy where
  checkOperation plan :=
    match plan.name with
    | some name =>
      if operations.contains name then
        .deny (.ofOperation plan ("Access denied to operation \"" ++ name ++ "\""))
      else .allow
    | none => .allow
  checkField context :=
    if fields.contains context.coordinate then
      .deny (.ofField context ("Access denied to field \"" ++ context.coordinate ++ "\""))
    else .allow

/-- The first denial, if there is one. -/
def firstDenial : List Decision → Decision
  | [] => .allow
  | .allow :: rest => firstDenial rest
  | .deny denial :: _ => .deny denial

/-- Allows what all members allow, and denies as the first member that denies does. -/
def composite (members : List Policy) : Policy where
  checkOperation plan := firstDenial (members.map (·.checkOperation plan))
  checkField context := firstDenial (members.map (·.checkField context))

end Policy

/-- The categories of checks that are switched on. -/
structure Capabilities where
  operationCheck : Bool
  fieldCheck : Bool
deriving DecidableEq

structure Gate where
  policy : Policy
  capabilities : Capabilities

namespace Gate

def checkOperation (gate : Gate) (plan : Plan) : Decision :=
  if gate.capabilities.operationCheck then gate.policy.checkOperation plan else .allow

def checkField (gate : Gate) (context : Context) : Decision :=
  if gate.capabilities.fieldCheck then gate.policy.checkField context else .allow

end Gate

end GraphGate
