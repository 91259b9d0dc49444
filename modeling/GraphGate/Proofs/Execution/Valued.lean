import GraphGate.Execution.Completion
import GraphGate.Proofs.Execution.Resolution

/-! Executions without events: what subscribers would answer is already in them. All that is left of
the subscribers is what the last event of a field does to the field's value. -/
namespace GraphGate

namespace Dialogue

variable {ρ α β : Type} {answer : Phase → Event → Option Json}

/-- A dialogue whose events have got their answers. -/
def heard (answer : Phase → Event → Option Json) : Dialogue ρ α → Dialogue ρ α
  | done a => .done a
  | publish phase event next => heard answer (next (answer phase event))
  | askOperation plan next => .askOperation plan fun decision => heard answer (next decision)
  | askField context next => .askField context fun decision => heard answer (next decision)
  | call resolver invocation next =>
    .call resolver invocation fun result => heard answer (next result)

/-- Step by step, answers are given in the same places. -/
theorem heard_bind {d d' : Dialogue ρ α} {f f' : α → Dialogue ρ β} (hd : d.heard answer = d')
    (hf : ∀ a, (f a).heard answer = f' a) : (d.bind f).heard answer = d'.bind f' := by
  subst hd
  induction d with
  | done a => exact hf a
  | publish phase event next ih => exact ih _
  | askOperation plan next ih => exact congrArg (askOperation plan) (funext ih)
  | askField context next ih => exact congrArg (askField context) (funext ih)
  | call resolver invocation next ih => exact congrArg (call resolver invocation) (funext ih)

theorem heard_operationDecision {capabilities : Capabilities} {plan : Plan} :
    (operationDecision capabilities plan : Dialogue ρ Decision).heard answer =
      operationDecision capabilities plan := by
  unfold operationDecision
  split <;> rfl

theorem heard_fieldDecision {capabilities : Capabilities} {context : Context} :
    (fieldDecision capabilities context : Dialogue ρ Decision).heard answer =
      fieldDecision capabilities context := by
  unfold fieldDecision
  split <;> rfl

end Dialogue

namespace Execution

open Dialogue (heard_bind)

variable {ρ : Type}

/-- The value of a field: the dispatched one with a change. -/
def resolveValued (change : Context → Json → Json) (setting : Setting ρ)
    (definition : FieldDefinition ρ) (context : Context) (parent : Json) :
    Dialogue ρ (Except FieldError Json) := do
  match ← Dialogue.fieldDecision setting.capabilities context with
  | .deny denial => return .error (.denied denial)
  | .allow =>
    let dispatched ← dispatch setting definition.resolution (Context.invocation context parent)
    return dispatched.map (change context)

mutual

/-- A field of an object: its changed value is completed. -/
def completeFieldValued (change : Context → Json → Json) (setting : Setting ρ) (plan : Plan) :
    FieldNode → ObjectType ρ → Json → Path → Dialogue ρ (Completion Json)
  | ⟨aliasName, name, arguments, children, position⟩, container, parent, path =>
    let node : FieldNode := ⟨aliasName, name, arguments, children, position⟩
    let below : ObjectType ρ → Json → Path → Dialogue ρ (Completion Json) :=
      fun type value path => do
        let pairs ← completeFieldsValued change setting plan children type value path
        return pairs.map fun pairs => .obj (Table.ofPairs pairs)
    if name = Plan.typename then pure (.ok (.str container.name))
    else match container.field? name with
      | none =>
        pure ⟨some .null, [.ofField (.fieldUndefined container.name name) node path]⟩
      | some definition => do
        match ← resolveValued change setting definition
          ⟨definition.toFieldSignature, node, container.name, path, plan⟩ parent with
        | .error e =>
          return (Completion.failed (.ofField e node path)).orNull definition.type.nullable
        | .ok value => complete setting.schema node below definition.type value path

def completeFieldsValued (change : Context → Json → Json) (setting : Setting ρ) (plan : Plan) :
    List FieldNode → ObjectType ρ → Json → Path → Dialogue ρ (Completion (List (String × Json)))
  | [], _, _, _ => pure (.ok [])
  | node :: rest, container, parent, path => do
    let first ← completeFieldValued change setting plan node container parent
      (path ++ [.field node.outputName])
    let more ← completeFieldsValued change setting plan rest container parent path
    return .both (fun value pairs => (node.outputName, value) :: pairs) first more

end

/-- `execute` without events, and with changed values. -/
def executeValued (change : Context → Json → Json) (setting : Setting ρ) (root : Json)
    (plan : Plan) : Dialogue ρ Envelope := do
  match ← Dialogue.operationDecision setting.capabilities plan with
  | .deny denial => return .rejected (.ofOperation denial)
  | .allow =>
    match setting.schema.object? plan.root with
    | none => return .rejected (.ofPlan (.rootMissing plan.root none))
    | some type => do
      let completed ← completeFieldsValued change setting plan plan.fields type root []
      return ⟨(completed.value.map fun pairs => .obj (Table.ofPairs pairs)).getD .null,
        completed.errors⟩

/-- What is left of a dispatched value after the event that tells of it. -/
def changeOf (answer : Phase → Event → Option Json) (context : Context) (value : Json) : Json :=
  (answer .postResolve (Context.event context (some value))).getD .null

variable {answer : Phase → Event → Option Json} {setting : Setting ρ}

theorem heard_dispatch {resolution : Resolution ρ} {invocation : Invocation} :
    (dispatch setting resolution invocation).heard answer =
      dispatch setting resolution invocation := by
  cases resolution with
  | callable resolver => rfl
  | method service name =>
    simp only [dispatch]
    split <;> rfl
  | property key => rfl
  | default =>
    simp only [dispatch]
    split <;> rfl

theorem heard_resolve (definition : FieldDefinition ρ) (node : FieldNode) (parentType : String)
    (parent : Json) (path : Path) (plan : Plan) :
    (resolve setting definition node parentType parent path plan).heard answer =
      resolveValued (changeOf answer) setting definition
        ⟨definition.toFieldSignature, node, parentType, path, plan⟩ parent := by
  unfold resolve resolveValued
  refine heard_bind Dialogue.heard_fieldDecision fun decision => ?_
  cases decision with
  | deny denial => rfl
  | allow =>
    refine heard_bind heard_dispatch fun dispatched => ?_
    cases dispatched <;> rfl

theorem heard_completeElements {element element' : Json → Path → Dialogue ρ (Completion Json)}
    (h : ∀ value path, (element value path).heard answer = element' value path) {path : Path}
    {index : Nat} {values : List Json} :
    (completeElements element path index values).heard answer =
      completeElements element' path index values := by
  induction values generalizing index with
  | nil => rfl
  | cons value rest ih => exact heard_bind (h _ _) fun _ => heard_bind ih fun _ => rfl

/-- Completion publishes nothing but what is published below. -/
theorem heard_complete {schema : Schema ρ} {node : FieldNode}
    {object object' : ObjectType ρ → Json → Path → Dialogue ρ (Completion Json)}
    (h : ∀ type value path, (object type value path).heard answer = object' type value path)
    {type : TypeRef} {value : Json} {path : Path} :
    (complete schema node object type value path).heard answer =
      complete schema node object' type value path := by
  induction type generalizing value path with
  | named name nullable =>
    by_cases hv : value = .null
    · subst hv
      rfl
    · rw [complete, complete]
      · split
        · exact heard_bind (h _ _ _) fun _ => rfl
        · split <;> rfl
        · rfl
      all_goals exact hv
  | list element nullable ih =>
    cases value with
    | arr elements => exact heard_bind (heard_completeElements fun _ _ => ih) fun _ => rfl
    | _ => rfl

variable {plan : Plan}

mutual

theorem heard_completeField : ∀ (node : FieldNode) (container : ObjectType ρ) (parent : Json)
    (path : Path), (completeField setting plan node container parent path).heard answer =
      completeFieldValued (changeOf answer) setting plan node container parent path
  | ⟨aliasName, name, arguments, children, position⟩, container, parent, path => by
    rw [completeField, completeFieldValued]
    split
    · rfl
    · cases container.field? name with
      | none => rfl
      | some definition =>
        refine heard_bind (heard_resolve definition _ _ _ _ _) fun resolved => ?_
        cases resolved with
        | error e => rfl
        | ok value =>
          exact heard_complete fun type value path =>
            heard_bind (heard_completeFields children type value path) fun _ => rfl

theorem heard_completeFields : ∀ (nodes : List FieldNode) (container : ObjectType ρ)
    (parent : Json) (path : Path),
    (completeFields setting plan nodes container parent path).heard answer =
      completeFieldsValued (changeOf answer) setting plan nodes container parent path
  | [], container, parent, path => by
    rw [completeFields, completeFieldsValued]
    rfl
  | node :: rest, container, parent, path => by
    rw [completeFields, completeFieldsValued]
    exact heard_bind (heard_completeField node container parent _) fun _ =>
      heard_bind (heard_completeFields rest container parent path) fun _ => rfl

end

/-- An execution whose events have got their answers is one without events. -/
theorem heard_execute (root : Json) : (execute setting root plan).heard answer =
    executeValued (changeOf answer) setting root plan := by
  unfold execute executeValued
  refine heard_bind Dialogue.heard_operationDecision fun decision => ?_
  cases decision with
  | deny denial => rfl
  | allow =>
    simp only
    cases setting.schema.object? plan.root with
    | none => rfl
    | some type => exact heard_bind (heard_completeFields _ _ _ _) fun _ => rfl

end Execution

end GraphGate
