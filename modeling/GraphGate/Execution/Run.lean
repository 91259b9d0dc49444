import GraphGate.Clock.Schedule
import GraphGate.Execution.Completion
import GraphGate.Plan.Build

/-! Executions among resolvers that take time: each call is bounded by a timeout and ends when
everything is to stop. -/
namespace GraphGate

/-- How a resolver ends. -/
inductive Outcome where
  | value (v : Json)
  | failure (message : String)
  | panic

def Outcome.result : Outcome → CallResult
  | .value v => .ok v
  | .failure message => .error (.failed message)
  | .panic => .error .panicked

/-- What a resolver does when it is called. -/
inductive Course (σ : Type) where
  | finish (outcome : Outcome)
  | look (next : World σ → Course σ)
  | keep (memory : σ → σ) (next : Course σ)
  /-- Lets everything stop. -/
  | cancel (next : Course σ)
  | sleep (ms : Nat) (next : Course σ)

namespace Execution

variable {ρ σ α : Type}

/-- Who answers an execution. -/
structure Surroundings (ρ σ : Type) where
  policy : Policy
  sink : Sink σ
  resolvers : ρ → Invocation → Course σ
  /-- The longest that a call may take, in milliseconds. -/
  timeout : Option Nat

/-- A resolver's course within the time that is left to it; `first` tells that it did not sleep
so far. A sleep of no length is none. -/
def supervise (next : CallResult → Task σ α) (first : Bool) :
    Option Nat → Course σ → Task σ α
  | _, .finish outcome => next outcome.result
  | left, .look course => .look fun world => supervise next first left (course world)
  | left, .keep memory course => .look fun world =>
    .put { world with memory := memory world.memory } (supervise next first left course)
  | left, .cancel course => .look fun world =>
    .put { world with cancelled := true } (supervise next first left course)
  | left, .sleep 0 course => supervise next first left course
  | none, .sleep ms course =>
    .pause ⟨ms, first, false⟩ (supervise next false none course) (next (.error .cancelled))
  | some left, .sleep ms course =>
    if ms ≤ left then
      .pause ⟨ms, first, false⟩ (supervise next false (some (left - ms)) course)
        (next (.error .cancelled))
    else .pause ⟨left, first, true⟩ (next (.error .timedOut)) (next (.error .cancelled))

/-- A dialogue with its surroundings. Once everything is to stop, no resolver is called. -/
def perform (s : Surroundings ρ σ) : Dialogue ρ α → Task σ α
  | .done a => .done a
  | .publish phase event next => .look fun world =>
    let (value, memory) := s.sink.publish phase event world.memory
    .put { world with memory } (perform s (next value))
  | .askOperation plan next => perform s (next (s.policy.checkOperation plan))
  | .askField context next => perform s (next (s.policy.checkField context))
  | .call resolver invocation next => .look fun world =>
    if world.cancelled then perform s (next (.error .cancelled))
    else supervise (fun result => perform s (next result)) true s.timeout
      (s.resolvers resolver invocation)

end Execution

end GraphGate
