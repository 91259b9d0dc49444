import GraphGate.Proofs.Execution.Turns

/-! Whatever passes in an execution is about the resolution of one field after the other, and every
one that fails leaves an error at its field's path. -/
namespace GraphGate.Execution

variable {ρ : Type} {setting : Setting ρ} {plan : Plan}

/-- The resolution of one field: what passed, and what came of it. -/
structure Attempt (ρ : Type) where
  site : Site ρ
  exchanges : Transcript ρ
  result : Except FieldError Json

namespace Attempt

/-- The field was resolved in this way, and errors tell if it failed. -/
structure Reported (setting : Setting ρ) (plan : Plan) (errors : List ResponseError)
    (attempt : Attempt ρ) : Prop where
  defined : attempt.site.container.field? attempt.site.node.name = some attempt.site.definition
  resolves : Resolves setting attempt.site.definition.resolution (attempt.site.context plan)
    attempt.site.parent attempt.exchanges attempt.result
  failed : ∀ e, attempt.result = .error e →
    .ofField e attempt.site.node attempt.site.path ∈ errors

end Attempt

/-- A transcript falls into attempts. -/
def Attempted (setting : Setting ρ) (plan : Plan) (t : Transcript ρ) (errors : List ResponseError) :
    Prop :=
  ∃ attempts : List (Attempt ρ), t = attempts.flatMap (·.exchanges) ∧
    ∀ attempt ∈ attempts, attempt.Reported setting plan errors

variable {t t' : Transcript ρ} {errors errors' : List ResponseError}

theorem attempted_nil : Attempted setting plan [] errors := ⟨[], rfl, List.forall_mem_nil _⟩

theorem attempted_append (h : Attempted setting plan t errors)
    (h' : Attempted setting plan t' errors') :
    Attempted setting plan (t ++ t') (errors ++ errors') := by
  obtain ⟨attempts, rfl, ha⟩ := h
  obtain ⟨attempts', rfl, ha'⟩ := h'
  refine ⟨attempts ++ attempts', List.flatMap_append.symm, ?_⟩
  intro attempt hm
  rcases List.mem_append.mp hm with hm | hm
  · obtain ⟨hd, hr, hf⟩ := ha attempt hm
    exact ⟨hd, hr, fun e he => List.mem_append_left _ (hf e he)⟩
  · obtain ⟨hd, hr, hf⟩ := ha' attempt hm
    exact ⟨hd, hr, fun e he => List.mem_append_right _ (hf e he)⟩

theorem attempted_orNull {c : Completion Json} {nullable : Bool}
    (h : Attempted setting plan t c.errors) :
    Attempted setting plan t (c.orNull nullable).errors := by
  rw [errors_orNull]
  exact h

theorem attempted_of_resolves {container : ObjectType ρ} {definition : FieldDefinition ρ}
    {node : FieldNode} {path : Path} {parent : Json} {r : Except FieldError Json}
    (hd : container.field? node.name = some definition)
    (h : Resolves setting definition.resolution
      ⟨definition.toFieldSignature, node, container.name, path, plan⟩ parent t r)
    (hf : ∀ e, r = .error e → .ofField e node path ∈ errors) :
    Attempted setting plan t errors := by
  refine ⟨[⟨⟨container, definition, node, path, parent⟩, t, r⟩], ?_,
    List.forall_mem_singleton.mpr ⟨hd, h, hf⟩⟩
  rw [List.flatMap_cons, List.flatMap_nil, List.append_nil]

mutual

theorem attempted_of_completesField : ∀ {node : FieldNode} {container : ObjectType ρ}
    {parent : Json} {path : Path} {t : Transcript ρ} {c : Completion Json},
    CompletesField setting plan node container parent path t c → Attempted setting plan t c.errors
  | _, _, _, _, _, _, .typename _ => attempted_nil
  | _, _, _, _, _, _, .undefined _ _ => attempted_nil
  | _, _, _, _, _, _, .failed _ hd hr => by
    refine attempted_orNull (attempted_of_resolves hd hr ?_)
    rintro e ⟨⟩
    exact List.mem_singleton_self _
  | _, _, _, _, _, _, .resolved _ hd hr hv => by
    have hown : Attempted setting plan _ [] := attempted_of_resolves hd hr nofun
    exact attempted_append hown (attempted_of_completesValue hv)

theorem attempted_of_completesFields : ∀ {nodes : List FieldNode} {container : ObjectType ρ}
    {parent : Json} {path : Path} {t : Transcript ρ} {c : Completion (List (String × Json))},
    CompletesFields setting plan nodes container parent path t c →
      Attempted setting plan t c.errors
  | _, _, _, _, _, _, .nil => attempted_nil
  | _, _, _, _, _, _, .cons hf hs =>
    attempted_append (attempted_of_completesField hf) (attempted_of_completesFields hs)

theorem attempted_of_completesValue : ∀ {node : FieldNode} {type : TypeRef} {value : Json}
    {path : Path} {t : Transcript ρ} {c : Completion Json},
    CompletesValue setting plan node type value path t c → Attempted setting plan t c.errors
  | _, _, _, _, _, _, .null => attempted_nil
  | _, _, _, _, _, _, .list he => attempted_orNull (attempted_of_completesElements he)
  | _, _, _, _, _, _, .noList _ _ => attempted_nil
  | _, _, _, _, _, _, .object _ _ hs => attempted_orNull (attempted_of_completesFields hs)
  | _, _, _, _, _, _, .leaf _ _ _ => attempted_nil
  | _, _, _, _, _, _, .badLeaf _ _ _ _ => attempted_nil
  | _, _, _, _, _, _, .noType _ _ => attempted_nil

theorem attempted_of_completesElements : ∀ {node : FieldNode} {type : TypeRef} {index : Nat}
    {values : List Json} {path : Path} {t : Transcript ρ} {c : Completion (List Json)},
    CompletesElements setting plan node type index values path t c →
      Attempted setting plan t c.errors
  | _, _, _, _, _, _, _, .nil => attempted_nil
  | _, _, _, _, _, _, _, .cons hv hs =>
    attempted_append (attempted_of_completesValue hv) (attempted_of_completesElements hs)

end

/-- What passes in an execution, after the operation was asked about. -/
theorem exists_attempted_of_gives {root : Json} {envelope : Envelope}
    (h : (execute setting root plan).Gives t envelope) :
    ∃ opening rest, t = opening ++ rest ∧
      (∀ x ∈ opening, ∃ decision, x = .operation plan decision) ∧
      Attempted setting plan rest envelope.errors := by
  cases executes_of_gives h with
  | @denied denial hc =>
    exact ⟨[.operation plan (.deny denial)], [], rfl, by simp, attempted_nil⟩
  | noRoot ht ha =>
    exact ⟨t, [], (List.append_nil t).symm, fun x hx => ⟨_, ha x hx⟩, attempted_nil⟩
  | @completed type t t' c ht ha hs =>
    exact ⟨t, t', rfl, fun x hx => ⟨_, ha x hx⟩, attempted_of_completesFields hs⟩

variable {attempt : Attempt ρ}

/-- An attempt announces its field and no other. -/
theorem visits_of_reported (h : attempt.Reported setting plan errors) :
    attempt.exchanges.visits = [attempt.site.path] := by
  obtain ⟨turn, hsite, hp, ht⟩ := exists_turn_of_resolves h.defined h.resolves
  rw [ht, visits_exchanges hp, hsite]

theorem exists_attempt_of_visited {attempts : List (Attempt ρ)}
    (h : ∀ attempt ∈ attempts, attempt.Reported setting plan errors) {path : Path}
    (hv : path ∈ Transcript.visits (attempts.flatMap (·.exchanges))) :
    ∃ attempt ∈ attempts, attempt.site.path = path := by
  obtain ⟨x, hx, hp⟩ := List.mem_filterMap.mp hv
  obtain ⟨attempt, ha, hx⟩ := List.mem_flatMap.mp hx
  have hm : path ∈ attempt.exchanges.visits := List.mem_filterMap.mpr ⟨x, hx, hp⟩
  rw [visits_of_reported (h attempt ha)] at hm
  exact ⟨attempt, ha, (List.mem_singleton.mp hm).symm⟩

/-- The key under which a field is read from its parent, if no resolver is asked for it. -/
def readKey? (setting : Setting ρ) (definition : FieldDefinition ρ) : Option String :=
  match definition.resolution with
  | .property key => some key
  | .default => if (typeResolver? setting.schema definition.type).isNone then some definition.name
    else none
  | .callable _ | .method .. => none

theorem dispatch_of_readKey? {definition : FieldDefinition ρ} {invocation : Invocation}
    {key : String} (hf : invocation.context.field = definition.toFieldSignature)
    (hk : readKey? setting definition = some key) :
    dispatch setting definition.resolution invocation =
      .done (.ok (property invocation.parent key)) := by
  unfold readKey? at hk
  split at hk
  · next hr =>
    cases hk
    rw [hr]
    rfl
  · next hr =>
    rw [hr, dispatch, hf]
    split at hk
    · next hn =>
      cases hk
      rw [Option.isNone_iff_eq_none.mp hn]
      rfl
    · cases hk
  · cases hk
  · cases hk

/-- A field that is read from its parent is not let through, or it is resolved: its value goes to
the subscribers, and what they leave of it is the result. -/
theorem read_of_reported (h : attempt.Reported setting plan errors) {key : String}
    (hk : readKey? setting attempt.site.definition = some key) :
    (∃ denial, .field (attempt.site.context plan) (.deny denial) ∈ attempt.exchanges) ∨
      ∃ left, .published .postResolve (Context.event (attempt.site.context plan)
        (some (property attempt.site.parent key))) left ∈ attempt.exchanges ∧
        attempt.result = .ok (left.getD .null) := by
  have hdispatch : dispatch setting attempt.site.definition.resolution
      (Context.invocation (attempt.site.context plan) attempt.site.parent) =
      .done (.ok (property attempt.site.parent key)) := dispatch_of_readKey? rfl hk
  obtain ⟨site, exchanges, result⟩ := attempt
  obtain ⟨-, hr, -⟩ := h
  simp only at hr hdispatch ⊢
  cases hr with
  | @denied left denial hc => exact .inl ⟨denial, by simp⟩
  | failed hd =>
    rw [hdispatch] at hd
    cases (Dialogue.gives_done hd).2
  | @delivered _ left _ value hd =>
    rw [hdispatch] at hd
    obtain ⟨-, he⟩ := Dialogue.gives_done hd
    cases he
    exact .inr ⟨left, by simp, rfl⟩

/-- A call that a dispatch makes is the one that decides. -/
theorem eq_of_called_of_gives {resolution : Resolution ρ} {context : Context} {parent : Json}
    {r : Except FieldError Json} {resolver : ρ} {invocation : Invocation} {result : CallResult}
    (h : (dispatch setting resolution (Context.invocation context parent)).Gives t r)
    (hm : .called resolver invocation result ∈ t) :
    invocation.context = context ∧
      r = result.mapError (CallFailure.fieldError context.field.name) := by
  cases dispatches_of_gives h with
  | uncalled => cases hm
  | called =>
    cases List.mem_singleton.mp hm
    exact ⟨rfl, rfl⟩

theorem not_called_of_mem_allowance {capabilities : Capabilities} {context : Context}
    {resolver : ρ} {invocation : Invocation} {result : CallResult} :
    .called resolver invocation result ∉ allowance capabilities context := by
  unfold allowance
  split <;> simp

/-- A cancelled call fails the field that it was made for. -/
theorem cancelled_of_reported (h : attempt.Reported setting plan errors) {resolver : ρ}
    {invocation : Invocation}
    (hm : .called resolver invocation (.error .cancelled) ∈ attempt.exchanges) :
    .ofField (.cancelled invocation.context.field.name) invocation.context.node
      invocation.context.path ∈ errors := by
  obtain ⟨site, exchanges, result⟩ := attempt
  obtain ⟨-, hr, hf⟩ := h
  simp only at hr hf hm
  cases hr with
  | denied hc => simp at hm
  | @failed left t e hd =>
    have hcall : .called resolver invocation (.error .cancelled) ∈ t := by
      simpa [not_called_of_mem_allowance] using hm
    obtain ⟨hcontext, he⟩ := eq_of_called_of_gives hd hcall
    cases he
    rw [hcontext]
    exact hf _ rfl
  | @delivered left left' t value hd =>
    have hcall : .called resolver invocation (.error .cancelled) ∈ t := by
      simpa [not_called_of_mem_allowance] using hm
    cases (eq_of_called_of_gives hd hcall).2

end GraphGate.Execution
