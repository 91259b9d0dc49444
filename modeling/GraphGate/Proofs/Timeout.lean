import GraphGate.Proofs.Batch
import GraphGate.Proofs.Clock.Alone
import GraphGate.Proofs.Execution.Fallback
import GraphGate.Proofs.Execution.Steadiness
import GraphGate.Proofs.Execution.Transcript
import Mathlib.Algebra.Ring.Nat

/-! How long executions take: each call of a resolver sleeps for as long as the resolver does, but
never longer than the timeout, and nothing else takes any time. -/
namespace GraphGate

variable {ρ σ α : Type}

namespace Course

/-- How long a resolver sleeps in all, from a world on that nobody else moves. -/
def asleep : Course σ → World σ → Nat
  | finish _, _ => 0
  | look next, world => (next world).asleep world
  | keep memory next, world => next.asleep { world with memory := memory world.memory }
  | cancel next, world => next.asleep { world with cancelled := true }
  | sleep ms next, world => ms + next.asleep world

/-- How it ends then. -/
def ending : Course σ → World σ → Outcome
  | finish outcome, _ => outcome
  | look next, world => (next world).ending world
  | keep memory next, world => next.ending { world with memory := memory world.memory }
  | cancel next, world => next.ending { world with cancelled := true }
  | sleep _ next, world => next.ending world

end Course

namespace Execution

variable {s : Surroundings ρ σ} {next : CallResult → Task σ α} {now : Nat} {world : World σ}

/-- A resolver that is called, and the world that it finds. -/
structure Call (ρ σ : Type) where
  resolver : ρ
  invocation : Invocation
  world : World σ

namespace Surroundings

variable (s : Surroundings ρ σ)

def course (call : Call ρ σ) : Course σ := s.resolvers call.resolver call.invocation

/-- How long the resolver would sleep. -/
def asleep (call : Call ρ σ) : Nat := (s.course call).asleep call.world

def result (call : Call ρ σ) : CallResult :=
  limited s.timeout (s.asleep call) ((s.course call).ending call.world)

def exchange (call : Call ρ σ) : Exchange ρ :=
  .called call.resolver call.invocation (s.result call)

end Surroundings

namespace Surroundings

variable (s : Surroundings ρ σ)

end Surroundings

end Execution

open Execution

end GraphGate

namespace GraphGate.Sample

open Execution

end GraphGate.Sample
