import GraphGate.Gateway
import GraphGate.Proofs.Execution.Alike
import GraphGate.Proofs.Execution.Resolution
import GraphGate.Proofs.Plan.Outline
import GraphGate.Proofs.Schema

/-! Executors that differ only in how denied fields find their values cannot be told apart. -/
namespace GraphGate

open Execution

variable {ρ ρ₁ ρ₂ σ : Type}

/-- How the value of a field is found in the end. -/
inductive Way (σ : Type) where
  /-- By a resolver that does this. -/
  | course (act : Invocation → Course σ)
  /-- Not at all. -/
  | failure (error : FieldError)
  /-- Under a key of the parent. -/
  | key (name : String)

/-- The way of a field, with services and type resolvers looked up. -/
def Executor.way (e : Executor ρ σ) (definition : FieldDefinition ρ) : Way σ :=
  match definition.resolution with
  | .callable resolver => .course (e.resolvers resolver)
  | .method service name =>
    match method e.registry service name definition.name with
    | .error error => .failure error
    | .ok resolver => .course (e.resolvers resolver)
  | .property key => .key key
  | .default =>
    match typeResolver? e.schema definition.type with
    | some resolver => .course (e.resolvers resolver)
    | none => .key definition.name

/-- Executors that are equal but for the ways of the fields at denied coordinates. -/
structure Executor.AgreeOutside (denied : String → Bool) (e₁ : Executor ρ₁ σ)
    (e₂ : Executor ρ₂ σ) : Prop where
  outline : e₁.schema.outline = e₂.schema.outline
  gate : e₁.gate = e₂.gate
  sink : e₁.sink = e₂.sink
  options : e₁.options = e₂.options
  root : e₁.root = e₂.root
  ways : ∀ type field c₁ c₂ f₁ f₂, e₁.schema.object? type = some c₁ →
    e₂.schema.object? type = some c₂ → c₁.field? field = some f₁ → c₂.field? field = some f₂ →
    denied (coordinate type field) = false → e₁.way f₁ = e₂.way f₂

/-- A dispatch goes the way of its field. -/
theorem dispatch_way (e : Executor ρ σ) {definition : FieldDefinition ρ} {invocation : Invocation}
    (hf : invocation.context.field = definition.toFieldSignature) :
    (∃ resolver, e.way definition = .course (e.resolvers resolver) ∧
        dispatch e.setting definition.resolution invocation = invoke resolver invocation) ∨
      (∃ error, e.way definition = .failure error ∧
        dispatch e.setting definition.resolution invocation = .done (.error error)) ∨
      ∃ key, e.way definition = .key key ∧
        dispatch e.setting definition.resolution invocation =
          .done (.ok (property invocation.parent key)) := by
  unfold Executor.way dispatch Executor.setting
  rw [hf]
  cases definition.resolution with
  | callable resolver => exact .inl ⟨resolver, rfl, rfl⟩
  | property key => exact .inr (.inr ⟨key, rfl, rfl⟩)
  | method service name =>
    simp only
    cases method e.registry service name definition.name with
    | error error => exact .inr (.inl ⟨error, rfl, rfl⟩)
    | ok resolver => exact .inl ⟨resolver, rfl, rfl⟩
  | default =>
    simp only
    cases typeResolver? e.schema definition.type with
    | some resolver => exact .inl ⟨resolver, rfl, rfl⟩
    | none => exact .inr (.inr ⟨definition.name, rfl, rfl⟩)

variable {e₁ : Executor ρ₁ σ} {e₂ : Executor ρ₂ σ}

theorem alike_dispatch {f₁ : FieldDefinition ρ₁} {f₂ : FieldDefinition ρ₂}
    {invocation : Invocation} (hf₁ : invocation.context.field = f₁.toFieldSignature)
    (hf₂ : invocation.context.field = f₂.toFieldSignature) (hw : e₁.way f₁ = e₂.way f₂) :
    Alike e₁.surroundings e₂.surroundings (dispatch e₁.setting f₁.resolution invocation)
      (dispatch e₂.setting f₂.resolution invocation) := by
  rcases dispatch_way e₁ hf₁ with ⟨r₁, hr₁, h₁⟩ | ⟨error₁, hr₁, h₁⟩ | ⟨key₁, hr₁, h₁⟩ <;>
    rcases dispatch_way e₂ hf₂ with ⟨r₂, hr₂, h₂⟩ | ⟨error₂, hr₂, h₂⟩ | ⟨key₂, hr₂, h₂⟩ <;>
    rw [hr₁, hr₂] at hw <;> rw [h₁, h₂]
  case inl.inl => exact alike_invoke (Way.course.inj hw)
  case inr.inl.inr.inl =>
    cases hw
    exact .done
  case inr.inr.inr.inr =>
    cases hw
    exact .done
  all_goals cases hw

/-- A denied field is turned away before its way begins. -/
theorem alike_resolve (hg : e₁.gate = e₂.gate) (hc : e₁.gate.capabilities.fieldCheck = true)
    {f₁ : FieldDefinition ρ₁} {f₂ : FieldDefinition ρ₂}
    (hf : f₁.toFieldSignature = f₂.toFieldSignature) {node : FieldNode} {parentType : String}
    {parent : Json} {path : Path} {plan : Plan}
    (hw : (e₁.gate.policy.checkField ⟨f₁.toFieldSignature, node, parentType, path, plan⟩).isAllow =
      true → e₁.way f₁ = e₂.way f₂) :
    Alike e₁.surroundings e₂.surroundings (resolve e₁.setting f₁ node parentType parent path plan)
      (resolve e₂.setting f₂ node parentType parent path plan) := by
  have hc₁ : e₁.setting.capabilities.fieldCheck = true := hc
  have hc₂ : e₂.setting.capabilities.fieldCheck = true := by
    rw [hg] at hc
    exact hc
  unfold resolve Dialogue.fieldDecision
  simp only [hc₁, hc₂, if_true, ← hf]
  refine .publish fun _ => .askField ?_
  have hp : e₁.surroundings.policy = e₁.gate.policy := rfl
  rw [hp]
  cases hd : e₁.gate.policy.checkField ⟨f₁.toFieldSignature, node, parentType, path, plan⟩ with
  | deny denial => exact .done
  | allow =>
    rw [hd] at hw
    let invocation : Invocation := Context.invocation
      ⟨f₁.toFieldSignature, node, parentType, path, plan⟩ parent
    have hd : Alike e₁.surroundings e₂.surroundings (dispatch e₁.setting f₁.resolution invocation)
        (dispatch e₂.setting f₂.resolution invocation) := alike_dispatch rfl hf (hw rfl)
    simp only [bind, Dialogue.bind]
    refine alike_bind hd ?_
    intro r
    cases r with
    | error e => exact .done
    | ok value => exact .publish fun _ => .done

theorem alike_completeElements {s₁ : Surroundings ρ₁ σ} {s₂ : Surroundings ρ₂ σ}
    {element₁ : Json → Path → Dialogue ρ₁ (Completion Json)}
    {element₂ : Json → Path → Dialogue ρ₂ (Completion Json)}
    (h : ∀ value path, Alike s₁ s₂ (element₁ value path) (element₂ value path))
    {path : Path} {index : Nat} {values : List Json} :
    Alike s₁ s₂ (completeElements element₁ path index values)
      (completeElements element₂ path index values) := by
  induction values generalizing index with
  | nil => exact .done
  | cons value rest ih => exact alike_bind (h _ _) fun _ => alike_bind ih fun _ => .done

theorem leaf?_outline (definition : TypeDefinition ρ) (value : Json) :
    leaf? definition.outline value = leaf? definition value := by
  fun_cases leaf? definition value
  all_goals simp_all [TypeDefinition.outline, leaf?]

theorem cases_of_map_eq {α β γ : Type} {f : α → γ} {g : β → γ} {x : Option α} {y : Option β}
    (h : x.map f = y.map g) :
    (x = none ∧ y = none) ∨ ∃ a b, x = some a ∧ y = some b ∧ f a = g b := by
  cases x with
  | none => exact .inl ⟨rfl, Option.map_eq_none_iff.mp h.symm⟩
  | some a =>
    obtain ⟨b, hb, hg⟩ := Option.map_eq_some_iff.mp h.symm
    exact .inr ⟨a, b, rfl, hb, hg.symm⟩

/-- Schemas of one outline have the same names, and the same outlines under them. -/
theorem cases_of_outline (h : e₁.schema.outline = e₂.schema.outline) (name : String) :
    (e₁.schema.find? name = none ∧ e₂.schema.find? name = none) ∨
      ∃ d₁ d₂, e₁.schema.find? name = some d₁ ∧ e₂.schema.find? name = some d₂ ∧
        d₁.outline = d₂.outline := by
  apply cases_of_map_eq
  rw [← find?_outline, h, find?_outline]

/-- Objects of one name in two schemas. -/
def SameName (e₁ : Executor ρ₁ σ) (e₂ : Executor ρ₂ σ) (c₁ : ObjectType ρ₁) (c₂ : ObjectType ρ₂) :
    Prop :=
  ∃ name, e₁.schema.object? name = some c₁ ∧ e₂.schema.object? name = some c₂

theorem alike_complete_named (ho : e₁.schema.outline = e₂.schema.outline) {node : FieldNode}
    {object₁ : ObjectType ρ₁ → Json → Path → Dialogue ρ₁ (Completion Json)}
    {object₂ : ObjectType ρ₂ → Json → Path → Dialogue ρ₂ (Completion Json)}
    (h : ∀ c₁ c₂, SameName e₁ e₂ c₁ c₂ → ∀ value path,
      Alike e₁.surroundings e₂.surroundings (object₁ c₁ value path) (object₂ c₂ value path))
    {name : String} {nullable : Bool} {value : Json} {path : Path} (hv : value ≠ .null) :
    Alike e₁.surroundings e₂.surroundings
      (complete e₁.schema node object₁ (.named name nullable) value path)
      (complete e₂.schema node object₂ (.named name nullable) value path) := by
  rw [complete, complete]
  · rcases cases_of_outline ho name with ⟨h₁, h₂⟩ | ⟨d₁, d₂, h₁, h₂, hd⟩
    · rw [h₁, h₂]
      exact .done
    · rw [h₁, h₂]
      have hn : d₁.name = d₂.name := by rw [← name_outline, hd, name_outline]
      have hl : leaf? d₁ value = leaf? d₂ value := by
        rw [← leaf?_outline, hd, leaf?_outline]
      cases d₁ with
      | object c₁ =>
        cases d₂ with
        | object c₂ =>
          have hs : SameName e₁ e₂ c₁ c₂ :=
            ⟨name, by rw [Schema.object?, h₁], by rw [Schema.object?, h₂]⟩
          exact alike_bind (h c₁ c₂ hs value path) fun _ => .done
        | _ => cases hd
      | _ =>
        cases d₂ with
        | object c₂ => cases hd
        | _ =>
          simp only [hl, hn]
          split <;> exact .done
  all_goals exact hv

theorem alike_complete (ho : e₁.schema.outline = e₂.schema.outline) {node : FieldNode}
    {object₁ : ObjectType ρ₁ → Json → Path → Dialogue ρ₁ (Completion Json)}
    {object₂ : ObjectType ρ₂ → Json → Path → Dialogue ρ₂ (Completion Json)}
    (h : ∀ c₁ c₂, SameName e₁ e₂ c₁ c₂ → ∀ value path,
      Alike e₁.surroundings e₂.surroundings (object₁ c₁ value path) (object₂ c₂ value path))
    {type : TypeRef} {value : Json} {path : Path} :
    Alike e₁.surroundings e₂.surroundings (complete e₁.schema node object₁ type value path)
      (complete e₂.schema node object₂ type value path) := by
  induction type generalizing value path with
  | named name nullable =>
    by_cases hv : value = .null
    · subst hv
      exact .done
    · exact alike_complete_named ho h hv
  | list element nullable ih =>
    by_cases hv : value = .null
    · subst hv
      exact .done
    · by_cases hl : ∃ elements, value = .arr elements
      · obtain ⟨elements, rfl⟩ := hl
        exact alike_bind (alike_completeElements fun _ _ => ih) fun _ => .done
      · have hl : ∀ elements, value ≠ .arr elements := fun elements he => hl ⟨elements, he⟩
        rw [complete, complete]
        · exact .done
        all_goals first
          | exact hv
          | exact hl

theorem outline_of_sameName (ho : e₁.schema.outline = e₂.schema.outline) {c₁ : ObjectType ρ₁}
    {c₂ : ObjectType ρ₂} (hs : SameName e₁ e₂ c₁ c₂) : c₁.outline = c₂.outline := by
  obtain ⟨name, h₁, h₂⟩ := hs
  have h : (e₁.schema.object? name).map ObjectType.outline =
      (e₂.schema.object? name).map ObjectType.outline := by
    rw [← object?_outline, ho, object?_outline]
  rw [h₁, h₂] at h
  exact Option.some.inj h

/-- Objects of one outline have the same fields, with the same signatures. -/
theorem cases_of_field? {c₁ : ObjectType ρ₁} {c₂ : ObjectType ρ₂} (h : c₁.outline = c₂.outline)
    (name : String) : (c₁.field? name = none ∧ c₂.field? name = none) ∨
      ∃ f₁ f₂, c₁.field? name = some f₁ ∧ c₂.field? name = some f₂ ∧
        f₁.toFieldSignature = f₂.toFieldSignature := by
  have hfind : (c₁.field? name).map FieldDefinition.outline =
      (c₂.field? name).map FieldDefinition.outline := by
    rw [← field?_outline, h, field?_outline]
  rcases cases_of_map_eq hfind with hn | ⟨f₁, f₂, h₁, h₂, hf⟩
  · exact .inl hn
  · exact .inr ⟨f₁, f₂, h₁, h₂, congrArg FieldDefinition.toFieldSignature hf⟩

/-- The gate is closed at denied coordinates. -/
structure Executor.Guards (e : Executor ρ σ) (denied : String → Bool) : Prop where
  fieldCheck : e.gate.capabilities.fieldCheck = true
  denies : ∀ context, (e.gate.policy.checkField context).isAllow = true →
    denied context.coordinate = false

variable {denied : String → Bool}

mutual

/-- A field is completed alike, be it denied or not. -/
theorem alike_completeField (h : e₁.AgreeOutside denied e₂) (hg : e₁.Guards denied)
    (plan : Plan) : ∀ (node : FieldNode) {c₁ : ObjectType ρ₁}
    {c₂ : ObjectType ρ₂} (parent : Json) (path : Path), SameName e₁ e₂ c₁ c₂ →
    Alike e₁.surroundings e₂.surroundings (completeField e₁.setting plan node c₁ parent path)
      (completeField e₂.setting plan node c₂ parent path)
  | ⟨aliasName, name, arguments, children, position⟩, c₁, c₂, parent, path, hs => by
    have hcs := outline_of_sameName h.outline hs
    have hn : c₁.name = c₂.name := congrArg ObjectType.name hcs
    rw [completeField, completeField]
    split
    · rw [hn]
      exact .done
    · rcases cases_of_field? hcs name with ⟨h₁, h₂⟩ | ⟨f₁, f₂, h₁, h₂, hf⟩
      · rw [h₁, h₂, hn]
        exact .done
      · rw [h₁, h₂]
        have ht : f₁.type = f₂.type := congrArg FieldSignature.type hf
        refine alike_bind ?_ ?_
        · rw [← hn]
          refine alike_resolve h.gate hg.fieldCheck hf ?_
          intro ha
          obtain ⟨type, ho₁, ho₂⟩ := hs
          have hd := hg.denies _ ha
          rw [Context.coordinate, name_of_object? ho₁, name_of_field? h₁] at hd
          exact h.ways type name c₁ c₂ f₁ f₂ ho₁ ho₂ h₁ h₂ hd
        · intro r
          cases r with
          | error e =>
            rw [ht]
            exact .done
          | ok value =>
            simp only
            rw [ht]
            refine alike_complete h.outline ?_
            intro c₁' c₂' hs' value path
            exact alike_bind (alike_completeFields h hg plan children value path hs') fun _ => .done

theorem alike_completeFields (h : e₁.AgreeOutside denied e₂) (hg : e₁.Guards denied)
    (plan : Plan) : ∀ (nodes : List FieldNode) {c₁ : ObjectType ρ₁}
    {c₂ : ObjectType ρ₂} (parent : Json) (path : Path), SameName e₁ e₂ c₁ c₂ →
    Alike e₁.surroundings e₂.surroundings (completeFields e₁.setting plan nodes c₁ parent path)
      (completeFields e₂.setting plan nodes c₂ parent path)
  | [], c₁, c₂, parent, path, hs => by
    rw [completeFields, completeFields]
    exact .done
  | node :: rest, c₁, c₂, parent, path, hs => by
    rw [completeFields, completeFields]
    exact alike_bind (alike_completeField h hg plan node parent _ hs) fun _ =>
      alike_bind (alike_completeFields h hg plan rest parent path hs) fun _ => .done

end

theorem alike_execute (h : e₁.AgreeOutside denied e₂) (hg : e₁.Guards denied) (plan : Plan) :
    Alike e₁.surroundings e₂.surroundings (e₁.executePlan plan) (e₂.executePlan plan) := by
  have hcap : e₁.setting.capabilities = e₂.setting.capabilities := congrArg Gate.capabilities h.gate
  unfold Executor.executePlan execute
  rw [← hcap, ← h.root]
  refine alike_bind alike_operationDecision ?_
  intro decision
  cases decision with
  | deny denial => exact .done
  | allow =>
    simp only
    have hroot : (e₁.schema.object? plan.root).map ObjectType.outline =
        (e₂.schema.object? plan.root).map ObjectType.outline := by
      rw [← object?_outline, h.outline, object?_outline]
    rcases cases_of_map_eq hroot with ⟨h₁, h₂⟩ | ⟨c₁, c₂, h₁, h₂, -⟩
    · rw [Executor.setting, Executor.setting, h₁, h₂]
      exact .done
    · rw [Executor.setting, Executor.setting, h₁, h₂]
      exact alike_bind (alike_completeFields h hg plan plan.fields e₁.root [] ⟨_, h₁, h₂⟩)
        fun _ => .done

/-- The task of an entry is the same for both. -/
theorem task_eq (h : e₁.AgreeOutside denied e₂) (hg : e₁.Guards denied) (entry : Entry) :
    e₁.task (e₁.execute entry) = e₂.task (e₂.execute entry) := by
  have hs : SameButResolvers e₁.surroundings e₂.surroundings :=
    ⟨congrArg Gate.policy h.gate, h.sink, congrArg Options.timeout h.options⟩
  have hplan : e₁.plan entry = e₂.plan entry := by
    unfold Executor.plan
    rw [← Plan.ofQuery_outline, h.outline, h.options, Plan.ofQuery_outline]
  refine perform_eq_of_alike hs ?_
  unfold Executor.execute
  rw [hplan]
  split
  · exact .done
  · exact alike_execute h hg _

end GraphGate
