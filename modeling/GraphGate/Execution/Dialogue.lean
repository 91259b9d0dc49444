import GraphGate.Event
import GraphGate.Response

/-! An execution as a dialogue: it publishes events, asks the policy and calls resolvers, and goes
on with what it hears. Nothing is said here about who answers. -/
namespace GraphGate

/-- Why a resolver's call gives no value. -/
inductive CallFailure where
  | cancelled
  | timedOut
  | panicked
  | failed (message : String)
deriving DecidableEq

abbrev CallResult := Except CallFailure Json

inductive Dialogue (ρ α : Type) where
  | done (a : α)
  | publish (phase : Phase) (event : Event) (next : Option Json → Dialogue ρ α)
  | askOperation (plan : Plan) (next : Decision → Dialogue ρ α)
  | askField (context : Context) (next : Decision → Dialogue ρ α)
  | call (resolver : ρ) (invocation : Invocation) (next : CallResult → Dialogue ρ α)

namespace Dialogue

variable {ρ α β : Type}

def bind (f : α → Dialogue ρ β) : Dialogue ρ α → Dialogue ρ β
  | done a => f a
  | publish phase event next => .publish phase event fun value => bind f (next value)
  | askOperation plan next => .askOperation plan fun decision => bind f (next decision)
  | askField context next => .askField context fun decision => bind f (next decision)
  | call resolver invocation next => .call resolver invocation fun result => bind f (next result)

instance : Monad (Dialogue ρ) where
  pure := done
  bind d f := bind f d

/-- Publishes an event and gives the value that is left in it. -/
def published (phase : Phase) (event : Event) : Dialogue ρ (Option Json) :=
  .publish phase event done

/-- The policy's word on an operation, if operations are checked. -/
def operationDecision (capabilities : Capabilities) (plan : Plan) : Dialogue ρ Decision :=
  if capabilities.operationCheck then .askOperation plan done else pure .allow

/-- The policy's word on a field, if fields are checked. -/
def fieldDecision (capabilities : Capabilities) (context : Context) : Dialogue ρ Decision :=
  if capabilities.fieldCheck then .askField context done else pure .allow

def called (resolver : ρ) (invocation : Invocation) : Dialogue ρ CallResult :=
  .call resolver invocation done

end Dialogue

end GraphGate
