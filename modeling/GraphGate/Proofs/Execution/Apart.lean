import GraphGate.Proofs.Clock.Mirror
import GraphGate.Proofs.Execution.Steadiness
import GraphGate.Proofs.Execution.Valued

/-! Subscribers apart from resolvers: where each of them has a memory that the others do not see, an
execution runs as one in which the subscribers' answers were known before. -/
namespace GraphGate

variable {ρ σ τ α : Type} {view : σ → τ}

/-- A resolver's course that does the same for whoever sees but a part of the memory. -/
inductive Course.Mirrors (view : σ → τ) : Course σ → Course τ → Prop
  | finish {outcome : Outcome} : Mirrors view (.finish outcome) (.finish outcome)
  | look {next : World σ → Course σ} {next' : World τ → Course τ}
    (h : ∀ world : World σ, Mirrors view (next world) (next' (world.seen view))) :
    Mirrors view (.look next) (.look next')
  | keep {memory : σ → σ} {memory' : τ → τ} {next : Course σ} {next' : Course τ}
    (hm : ∀ m, view (memory m) = memory' (view m)) (h : Mirrors view next next') :
    Mirrors view (.keep memory next) (.keep memory' next')
  | cancel {next : Course σ} {next' : Course τ} (h : Mirrors view next next') :
    Mirrors view (.cancel next) (.cancel next')
  | sleep {ms : Nat} {next : Course σ} {next' : Course τ} (h : Mirrors view next next') :
    Mirrors view (.sleep ms next) (.sleep ms next')

/-- What a sink answers does not depend on the memory, and what it puts down is not seen. -/
structure Sink.Answers (sink : Sink σ) (view : σ → τ) (answer : Phase → Event → Option Json) :
    Prop where
  value : ∀ phase event memory, (sink.publish phase event memory).1 = answer phase event
  memory : ∀ phase event memory, view (sink.publish phase event memory).2 = view memory

namespace Execution

theorem mirrors_supervise {next : CallResult → Task σ α} {next' : CallResult → Task τ α}
    (hn : ∀ result, (next result).Mirrors view (next' result)) {course : Course σ}
    {course' : Course τ} (h : course.Mirrors view course') {first : Bool} {left : Option Nat} :
    (supervise next first left course).Mirrors view (supervise next' first left course') := by
  induction h generalizing first left with
  | finish =>
    rw [supervise_finish, supervise_finish]
    exact hn _
  | look _ ih =>
    rw [supervise, supervise]
    exact .look fun world => ih world
  | keep hm _ ih =>
    rw [supervise, supervise]
    exact .look fun world => .put (congrArg (World.mk _) (hm _)) ih
  | cancel _ ih =>
    rw [supervise, supervise]
    exact .look fun world => .put rfl ih
  | @sleep ms _ _ _ ih =>
    cases ms with
    | zero =>
      rw [supervise_nap, supervise_nap]
      exact ih
    | succ ms =>
      by_cases hl : ∀ l ∈ left, ms + 1 ≤ l
      · rw [supervise_within hl, supervise_within hl]
        exact .pause ih (hn _)
      · obtain ⟨l, rfl, hlt⟩ : ∃ l, left = some l ∧ l < ms + 1 := by simpa using hl
        rw [supervise_beyond hlt, supervise_beyond hlt]
        exact .pause (hn _) (hn _)

variable {s : Surroundings ρ σ} {s' : Surroundings ρ τ} {answer : Phase → Event → Option Json}

/-- Surroundings of which the second have no subscribers, but otherwise do the same as far as is
seen. -/
structure Mirrors (view : σ → τ) (answer : Phase → Event → Option Json) (s : Surroundings ρ σ)
    (s' : Surroundings ρ τ) : Prop where
  policy : s.policy = s'.policy
  timeout : s.timeout = s'.timeout
  sink : s.sink.Answers view answer
  resolvers : ∀ resolver invocation,
    (s.resolvers resolver invocation).Mirrors view (s'.resolvers resolver invocation)

theorem mirrors_perform (h : Mirrors view answer s s') (d : Dialogue ρ α) :
    (perform s d).Mirrors view (perform s' (d.heard answer)) := by
  induction d with
  | done a => exact .done
  | publish phase event next ih =>
    refine .unseen (fun world => ?_) fun world => ?_
    · exact congrArg (World.mk world.cancelled) (h.sink.memory phase event world.memory)
    · rw [h.sink.value]
      exact ih _
  | askOperation plan next ih =>
    rw [perform, Dialogue.heard, perform, h.policy]
    exact ih _
  | askField context next ih =>
    rw [perform, Dialogue.heard, perform, h.policy]
    exact ih _
  | call resolver invocation next ih =>
    rw [perform, Dialogue.heard, perform, h.timeout]
    refine .look fun world => ?_
    change Task.Mirrors view _ (if world.cancelled then _ else _)
    split
    · exact ih _
    · exact mirrors_supervise ih (h.resolvers resolver invocation)

end Execution

end GraphGate
