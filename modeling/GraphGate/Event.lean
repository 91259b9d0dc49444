import GraphGate.Execution.Context

/-! Events around the resolution of a field. Subscribers may keep what they like in a memory of
type `σ`, and replace the value in the event. -/
namespace GraphGate

inductive Phase where
  | preResolve
  | postResolve
deriving DecidableEq

def Phase.name : Phase → String
  | .preResolve => "graphql.pre_resolve"
  | .postResolve => "graphql.post_resolve"

structure Event where
  field : FieldSignature
  /-- The fields selected below the one being resolved. -/
  children : List FieldNode
  path : Path
  /-- The value found so far. -/
  value : Option Json

/-- Takes notice of an event: the value to go on with, and the memory afterwards. -/
abbrev Subscriber (σ : Type) := Event → σ → Option Json × σ

/-- Where events are published. -/
structure Sink (σ : Type) where
  publish : Phase → Event → σ → Option Json × σ

/-- Nobody takes notice. -/
def Sink.silent {σ : Type} : Sink σ := ⟨fun _ event memory => (event.value, memory)⟩

/-- The subscribers to each phase in the order in which they came. -/
structure Dispatcher (σ : Type) where
  pre : List (Subscriber σ)
  post : List (Subscriber σ)

namespace Dispatcher

variable {σ : Type}

def empty : Dispatcher σ := ⟨[], []⟩

def subscribers (d : Dispatcher σ) : Phase → List (Subscriber σ)
  | .preResolve => d.pre
  | .postResolve => d.post

def subscribe (d : Dispatcher σ) (phase : Phase) (subscriber : Subscriber σ) : Dispatcher σ :=
  match phase with
  | .preResolve => { d with pre := d.pre ++ [subscriber] }
  | .postResolve => { d with post := d.post ++ [subscriber] }

/-- Each subscriber sees the value that the one before it left. -/
def notify (event : Event) (memory : σ) : List (Subscriber σ) → Option Json × σ
  | [] => (event.value, memory)
  | subscriber :: rest =>
    let (value, memory) := subscriber event memory
    notify { event with value } memory rest

def publish (d : Dispatcher σ) (phase : Phase) (event : Event) (memory : σ) : Option Json × σ :=
  notify event memory (d.subscribers phase)

def sink (d : Dispatcher σ) : Sink σ := ⟨d.publish⟩

end Dispatcher

end GraphGate
