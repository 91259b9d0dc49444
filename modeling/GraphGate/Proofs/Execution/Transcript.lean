import GraphGate.Execution.Run

/-! What passes between an execution and its surroundings. A transcript fixes every answer, so that
a statement over all transcripts is one over all behaviours of whoever answers. -/
namespace GraphGate

/-- A question of a dialogue with its answer. -/
inductive Exchange (ρ : Type) where
  | published (phase : Phase) (event : Event) (value : Option Json)
  | operation (plan : Plan) (decision : Decision)
  | field (context : Context) (decision : Decision)
  | called (resolver : ρ) (invocation : Invocation) (result : CallResult)

abbrev Transcript (ρ : Type) := List (Exchange ρ)

namespace Dialogue

variable {ρ α β : Type} {t : Transcript ρ} {d : Dialogue ρ α} {f : α → Dialogue ρ β} {a : α} {b : β}

/-- The dialogue gives a result when it is answered as the transcript says. -/
inductive Gives : Dialogue ρ α → Transcript ρ → α → Prop
  | done {a : α} : Gives (.done a) [] a
  | publish {phase : Phase} {event : Event} {value : Option Json}
    {next : Option Json → Dialogue ρ α} {t : Transcript ρ} {a : α} (h : Gives (next value) t a) :
    Gives (.publish phase event next) (.published phase event value :: t) a
  | askOperation {plan : Plan} {decision : Decision} {next : Decision → Dialogue ρ α}
    {t : Transcript ρ} {a : α} (h : Gives (next decision) t a) :
    Gives (.askOperation plan next) (.operation plan decision :: t) a
  | askField {context : Context} {decision : Decision} {next : Decision → Dialogue ρ α}
    {t : Transcript ρ} {a : α} (h : Gives (next decision) t a) :
    Gives (.askField context next) (.field context decision :: t) a
  | call {resolver : ρ} {invocation : Invocation} {result : CallResult}
    {next : CallResult → Dialogue ρ α} {t : Transcript ρ} {a : α} (h : Gives (next result) t a) :
    Gives (.call resolver invocation next) (.called resolver invocation result :: t) a

theorem gives_done {b : α} (h : (done a : Dialogue ρ α).Gives t b) : t = [] ∧ b = a := by
  cases h
  exact ⟨rfl, rfl⟩

/-- What a sequence of dialogues exchanges falls into what each of them does. -/
theorem gives_bind (h : (d.bind f).Gives t b) :
    ∃ t₁ t₂ a, t = t₁ ++ t₂ ∧ d.Gives t₁ a ∧ (f a).Gives t₂ b := by
  induction d generalizing t with
  | done a => exact ⟨[], t, a, rfl, .done, h⟩
  | publish phase event next ih =>
    cases h with
    | publish h =>
      obtain ⟨t₁, t₂, a, rfl, h₁, h₂⟩ := ih _ h
      exact ⟨_ :: t₁, t₂, a, rfl, .publish h₁, h₂⟩
  | askOperation plan next ih =>
    cases h with
    | askOperation h =>
      obtain ⟨t₁, t₂, a, rfl, h₁, h₂⟩ := ih _ h
      exact ⟨_ :: t₁, t₂, a, rfl, .askOperation h₁, h₂⟩
  | askField context next ih =>
    cases h with
    | askField h =>
      obtain ⟨t₁, t₂, a, rfl, h₁, h₂⟩ := ih _ h
      exact ⟨_ :: t₁, t₂, a, rfl, .askField h₁, h₂⟩
  | call resolver invocation next ih =>
    cases h with
    | call h =>
      obtain ⟨t₁, t₂, a, rfl, h₁, h₂⟩ := ih _ h
      exact ⟨_ :: t₁, t₂, a, rfl, .call h₁, h₂⟩

theorem gives_bind_done {g : α → β} (h : (d.bind fun a => .done (g a)).Gives t b) :
    ∃ a, b = g a ∧ d.Gives t a := by
  obtain ⟨t, t', a, rfl, hd, hdone⟩ := gives_bind h
  obtain ⟨rfl, rfl⟩ := gives_done hdone
  rw [List.append_nil]
  exact ⟨a, rfl, hd⟩

/-- As long as the answers are the same, a dialogue asks the same, and is done at the same point. -/
theorem gives_prefix_unique {t₁ t₂ rest₁ rest₂ : Transcript ρ} {a₁ a₂ : α} (h₁ : d.Gives t₁ a₁)
    (h₂ : d.Gives t₂ a₂) (he : t₁ ++ rest₁ = t₂ ++ rest₂) : t₁ = t₂ ∧ a₁ = a₂ := by
  induction h₁ generalizing t₂ with
  | done =>
    obtain ⟨rfl, rfl⟩ := gives_done h₂
    exact ⟨rfl, rfl⟩
  | publish _ ih =>
    cases h₂ with
    | publish h₂ =>
      obtain ⟨hx, ht⟩ := List.cons.inj he
      cases hx
      exact (ih h₂ ht).imp_left (congrArg _)
  | askOperation _ ih =>
    cases h₂ with
    | askOperation h₂ =>
      obtain ⟨hx, ht⟩ := List.cons.inj he
      cases hx
      exact (ih h₂ ht).imp_left (congrArg _)
  | askField _ ih =>
    cases h₂ with
    | askField h₂ =>
      obtain ⟨hx, ht⟩ := List.cons.inj he
      cases hx
      exact (ih h₂ ht).imp_left (congrArg _)
  | call _ ih =>
    cases h₂ with
    | call h₂ =>
      obtain ⟨hx, ht⟩ := List.cons.inj he
      cases hx
      exact (ih h₂ ht).imp_left (congrArg _)

theorem gives_published {phase : Phase} {event : Event} {value : Option Json}
    (h : (published phase event : Dialogue ρ (Option Json)).Gives t value) :
    t = [.published phase event value] := by
  cases h with
  | publish h =>
    obtain ⟨rfl, rfl⟩ := gives_done h
    rfl

/-- A field is asked about exactly if fields are checked. -/
theorem gives_fieldDecision {capabilities : Capabilities} {context : Context} {decision : Decision}
    (h : (fieldDecision capabilities context : Dialogue ρ Decision).Gives t decision) :
    (capabilities.fieldCheck = true ∧ t = [.field context decision]) ∨
      (capabilities.fieldCheck = false ∧ t = [] ∧ decision = .allow) := by
  unfold fieldDecision at h
  split at h
  · next hc =>
    cases h with
    | askField h =>
      obtain ⟨rfl, rfl⟩ := gives_done h
      exact .inl ⟨hc, rfl⟩
  · next hc =>
    obtain ⟨rfl, rfl⟩ := gives_done h
    exact .inr ⟨by simpa using hc, rfl, rfl⟩

theorem gives_operationDecision {capabilities : Capabilities} {plan : Plan} {decision : Decision}
    (h : (operationDecision capabilities plan : Dialogue ρ Decision).Gives t decision) :
    (capabilities.operationCheck = true ∧ t = [.operation plan decision]) ∨
      (capabilities.operationCheck = false ∧ t = [] ∧ decision = .allow) := by
  unfold operationDecision at h
  split at h
  · next hc =>
    cases h with
    | askOperation h =>
      obtain ⟨rfl, rfl⟩ := gives_done h
      exact .inl ⟨hc, rfl⟩
  · next hc =>
    obtain ⟨rfl, rfl⟩ := gives_done h
    exact .inr ⟨by simpa using hc, rfl, rfl⟩

theorem gives_called {resolver : ρ} {invocation : Invocation} {result : CallResult}
    (h : (called resolver invocation).Gives t result) :
    t = [.called resolver invocation result] := by
  cases h with
  | call h =>
    obtain ⟨rfl, rfl⟩ := gives_done h
    rfl

end Dialogue

variable {ρ : Type}

/-- A decision is that of a policy. -/
def Exchange.Obeys (policy : Policy) : Exchange ρ → Prop
  | .operation plan decision => decision = policy.checkOperation plan
  | .field context decision => decision = policy.checkField context
  | .published .. | .called .. => True

/-- All decisions in a transcript are those of a policy. -/
def Transcript.Obeys (t : Transcript ρ) (policy : Policy) : Prop := ∀ x ∈ t, x.Obeys policy

theorem obeys_cons {x : Exchange ρ} {t : Transcript ρ} {policy : Policy} (hx : x.Obeys policy)
    (ht : t.Obeys policy) : Transcript.Obeys (x :: t) policy :=
  List.forall_mem_cons.mpr ⟨hx, ht⟩

end GraphGate
