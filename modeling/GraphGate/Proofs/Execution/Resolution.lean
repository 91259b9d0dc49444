import GraphGate.Execution.Field
import GraphGate.Proofs.Execution.Transcript

/-! How the resolution of one field goes: an event, the gate, at most one call, and an event again
exactly where there is a value. -/
namespace GraphGate.Execution

open Dialogue (gives_bind gives_done gives_published gives_fieldDecision gives_called)

variable {ρ : Type} {setting : Setting ρ}

/-- What is published about a field. -/
def Context.event (context : Context) (value : Option Json) : Event :=
  ⟨context.field, context.node.children, context.path, value⟩

/-- What a resolver of the field is called with. -/
def Context.invocation (context : Context) (parent : Json) : Invocation :=
  ⟨parent, effectiveArguments context.field context.node.arguments, context⟩

/-- What passes where the gate lets a field through. -/
def allowance (capabilities : Capabilities) (context : Context) : Transcript ρ :=
  if capabilities.fieldCheck then [.field context .allow] else []

/-- A dispatch calls the resolver that it is given, or none. -/
inductive Dispatches (invocation : Invocation) : Transcript ρ → Except FieldError Json → Prop
  | uncalled {r : Except FieldError Json} : Dispatches invocation [] r
  | called {resolver : ρ} {result : CallResult} :
    Dispatches invocation [.called resolver invocation result]
      (result.mapError (CallFailure.fieldError invocation.context.field.name))

/-- The ways in which a field is resolved. -/
inductive Resolves (setting : Setting ρ) (resolution : Resolution ρ) (context : Context)
    (parent : Json) : Transcript ρ → Except FieldError Json → Prop
  | denied {left : Option Json} {denial : Denial} (hc : setting.capabilities.fieldCheck = true) :
    Resolves setting resolution context parent
      [.published .preResolve (Context.event context none) left, .field context (.deny denial)]
      (.error (.denied denial))
  | failed {left : Option Json} {t : Transcript ρ} {e : FieldError}
    (hd : (dispatch setting resolution (Context.invocation context parent)).Gives t (.error e)) :
    Resolves setting resolution context parent
      (.published .preResolve (Context.event context none) left ::
        (allowance setting.capabilities context ++ t))
      (.error e)
  | delivered {left value' : Option Json} {t : Transcript ρ} {value : Json}
    (hd : (dispatch setting resolution (Context.invocation context parent)).Gives t (.ok value)) :
    Resolves setting resolution context parent
      (.published .preResolve (Context.event context none) left ::
        (allowance setting.capabilities context ++
          (t ++ [.published .postResolve (Context.event context (some value)) value'])))
      (.ok (value'.getD .null))

theorem dispatches_of_invoke {resolver : ρ} {invocation : Invocation} {t : Transcript ρ}
    {r : Except FieldError Json} (h : (invoke resolver invocation).Gives t r) :
    Dispatches invocation t r := by
  obtain ⟨t₁, t₂, result, rfl, h₁, h₂⟩ := gives_bind h
  obtain ⟨rfl, rfl⟩ := gives_done h₂
  rw [gives_called h₁]
  exact .called

theorem dispatches_of_gives {resolution : Resolution ρ} {invocation : Invocation}
    {t : Transcript ρ} {r : Except FieldError Json}
    (h : (dispatch setting resolution invocation).Gives t r) : Dispatches invocation t r := by
  cases resolution with
  | callable resolver => exact dispatches_of_invoke h
  | method service name =>
    simp only [dispatch] at h
    split at h
    · obtain ⟨rfl, rfl⟩ := gives_done h
      exact .uncalled
    · exact dispatches_of_invoke h
  | property key =>
    obtain ⟨rfl, rfl⟩ := gives_done h
    exact .uncalled
  | default =>
    simp only [dispatch] at h
    split at h
    · exact dispatches_of_invoke h
    · obtain ⟨rfl, rfl⟩ := gives_done h
      exact .uncalled

theorem resolves_of_gives {definition : FieldDefinition ρ} {node : FieldNode}
    {parentType : String} {parent : Json} {path : Path} {plan : Plan} {t : Transcript ρ}
    {r : Except FieldError Json}
    (h : (resolve setting definition node parentType parent path plan).Gives t r) :
    Resolves setting definition.resolution
      ⟨definition.toFieldSignature, node, parentType, path, plan⟩ parent t r := by
  obtain ⟨t₁, t₂, _, rfl, h₁, h₂⟩ := gives_bind h
  obtain ⟨t₃, t₄, left, rfl, h₃, h₄⟩ := gives_bind h₁
  obtain ⟨rfl, -⟩ := gives_done h₄
  obtain ⟨t₅, t₆, decision, rfl, h₅, h₆⟩ := gives_bind h₂
  rw [gives_published h₃]
  have hc := gives_fieldDecision h₅
  cases decision with
  | deny denial =>
    rcases hc with ⟨hc, rfl⟩ | ⟨-, -, he⟩
    · obtain ⟨rfl, rfl⟩ := gives_done h₆
      exact .denied hc
    · cases he
  | allow =>
    have ht : t₅ = allowance setting.capabilities
        ⟨definition.toFieldSignature, node, parentType, path, plan⟩ := by
      rcases hc with ⟨hc, rfl⟩ | ⟨hc, rfl, -⟩ <;> simp [allowance, hc]
    subst ht
    obtain ⟨t₇, t₈, dispatched, rfl, h₇, h₈⟩ := gives_bind h₆
    cases dispatched with
    | error e =>
      obtain ⟨rfl, rfl⟩ := gives_done h₈
      simp only [List.append_nil]
      exact .failed h₇
    | ok value =>
      obtain ⟨t₉, t₁₀, value', rfl, h₉, h₁₀⟩ := gives_bind h₈
      obtain ⟨rfl, rfl⟩ := gives_done h₁₀
      rw [gives_published h₉]
      exact .delivered h₇

end GraphGate.Execution
