import GraphGate.Execution.Run

/-! Dialogues that ask the same and call resolvers that do the same cannot be told apart. -/
namespace GraphGate.Execution

variable {ρ₁ ρ₂ σ α β : Type} {s₁ : Surroundings ρ₁ σ} {s₂ : Surroundings ρ₂ σ}

/-- Two dialogues that go on alike under the answers that they get. Subscribers and resolvers may
answer anything; the policy answers as it does. -/
inductive Alike (s₁ : Surroundings ρ₁ σ) (s₂ : Surroundings ρ₂ σ) :
    Dialogue ρ₁ α → Dialogue ρ₂ α → Prop
  | done {a : α} : Alike s₁ s₂ (.done a) (.done a)
  | publish {phase : Phase} {event : Event} {next₁ : Option Json → Dialogue ρ₁ α}
    {next₂ : Option Json → Dialogue ρ₂ α} (h : ∀ value, Alike s₁ s₂ (next₁ value) (next₂ value)) :
    Alike s₁ s₂ (.publish phase event next₁) (.publish phase event next₂)
  | askOperation {plan : Plan} {next₁ : Decision → Dialogue ρ₁ α} {next₂ : Decision → Dialogue ρ₂ α}
    (h : Alike s₁ s₂ (next₁ (s₁.policy.checkOperation plan))
      (next₂ (s₁.policy.checkOperation plan))) :
    Alike s₁ s₂ (.askOperation plan next₁) (.askOperation plan next₂)
  | askField {context : Context} {next₁ : Decision → Dialogue ρ₁ α}
    {next₂ : Decision → Dialogue ρ₂ α}
    (h : Alike s₁ s₂ (next₁ (s₁.policy.checkField context))
      (next₂ (s₁.policy.checkField context))) :
    Alike s₁ s₂ (.askField context next₁) (.askField context next₂)
  | call {r₁ : ρ₁} {r₂ : ρ₂} {invocation : Invocation} {next₁ : CallResult → Dialogue ρ₁ α}
    {next₂ : CallResult → Dialogue ρ₂ α}
    (hr : s₁.resolvers r₁ invocation = s₂.resolvers r₂ invocation)
    (h : ∀ result, Alike s₁ s₂ (next₁ result) (next₂ result)) :
    Alike s₁ s₂ (.call r₁ invocation next₁) (.call r₂ invocation next₂)

theorem alike_bind {d₁ : Dialogue ρ₁ α} {d₂ : Dialogue ρ₂ α} {f₁ : α → Dialogue ρ₁ β}
    {f₂ : α → Dialogue ρ₂ β} (hd : Alike s₁ s₂ d₁ d₂)
    (hf : ∀ a, Alike s₁ s₂ (f₁ a) (f₂ a)) : Alike s₁ s₂ (d₁.bind f₁) (d₂.bind f₂) := by
  induction hd with
  | done => exact hf _
  | publish _ ih => exact .publish fun value => ih value
  | askOperation _ ih => exact .askOperation ih
  | askField _ ih => exact .askField ih
  | call hr _ ih => exact .call hr fun result => ih result

/-- Surroundings that differ in their resolvers at most. -/
structure SameButResolvers (s₁ : Surroundings ρ₁ σ) (s₂ : Surroundings ρ₂ σ) : Prop where
  policy : s₁.policy = s₂.policy
  sink : s₁.sink = s₂.sink
  timeout : s₁.timeout = s₂.timeout

/-- Alike dialogues are the same task. -/
theorem perform_eq_of_alike (hs : SameButResolvers s₁ s₂) {d₁ : Dialogue ρ₁ α}
    {d₂ : Dialogue ρ₂ α} (h : Alike s₁ s₂ d₁ d₂) : perform s₁ d₁ = perform s₂ d₂ := by
  induction h with
  | done => rfl
  | publish _ ih =>
    simp only [perform]
    congr 1
    funext world
    rw [← hs.sink, ih]
  | askOperation _ ih =>
    simp only [perform]
    rw [← hs.policy, ih]
  | askField _ ih =>
    simp only [perform]
    rw [← hs.policy, ih]
  | call hr _ ih =>
    simp only [perform]
    congr 1
    funext world
    rw [hr, ← hs.timeout, ih, funext ih]

theorem alike_operationDecision {capabilities : Capabilities} {plan : Plan} :
    Alike s₁ s₂ (Dialogue.operationDecision capabilities plan)
      (Dialogue.operationDecision capabilities plan) := by
  unfold Dialogue.operationDecision
  split
  · exact .askOperation .done
  · exact .done

theorem alike_invoke {r₁ : ρ₁} {r₂ : ρ₂} {invocation : Invocation}
    (hr : s₁.resolvers r₁ = s₂.resolvers r₂) :
    Alike s₁ s₂ (invoke r₁ invocation) (invoke r₂ invocation) :=
  .call (congrFun hr invocation) fun _ => .done

end GraphGate.Execution
