import GraphGate.Proofs.Execution.Conformance
import GraphGate.Proofs.Execution.Order
import GraphGate.Proofs.Plan.Arguments
import GraphGate.Proofs.Plan.Origin
import GraphGate.Proofs.Plan.Start

/-! What resolvers are called with: the arguments that the query supplies for the field, and the
defaults of the others. -/
namespace GraphGate

open Query

variable {ρ : Type}

theorem ne_null_of_inhabits {schema : Schema ρ} {type : TypeRef} {v : Json}
    (hn : type.nullable = false) (h : Inhabits schema type v) : v ≠ .null := by
  cases h with
  | null hn' =>
    rw [hn] at hn'
    cases hn'
  | scalar _ hv _ => exact hv
  | _ => nofun

namespace Plan

variable {schema : Schema ρ} {bindings : Bindings} {field : FieldSignature} {values : Table Json}
  {written : List Argument}

/-- Defaults fill up what is not supplied. -/
theorem filled_effectiveArguments {R : Json → Json → Prop}
    (hd : (field.arguments.map (·.name)).Nodup)
    (h : Filled R (fun _ => none) schema bindings written field.arguments values) :
    Filled R ArgumentDefinition.default schema bindings written field.arguments
      (effectiveArguments field values) where
  inOrder := Table.names_filterMap
  given := by
    intro d hm hn constant hs
    obtain ⟨v, w, hv, hw, hr⟩ := h.given d hm hn constant hs
    refine ⟨v, w, ?_, hw, hr⟩
    rw [effectiveArguments, Table.get?_filterMap hd hm, hv]
    rfl
  omitted := by
    intro d hm hn hs
    rw [effectiveArguments, Table.get?_filterMap hd hm, h.omitted d hm hn hs]
    rfl

/-- What must be there is there, and is a value of its type. -/
theorem required_effectiveArguments (hd : (field.arguments.map (·.name)).Nodup)
    (h : ArgumentsFit schema field.arguments values) {d : ArgumentDefinition}
    (hm : d ∈ field.arguments) (hn : d.type.nullable = false) (hnone : d.default = none) :
    ∃ v, (effectiveArguments field values).get? d.name = some v ∧ v ≠ .null ∧
      Inhabits schema d.type v := by
  obtain ⟨w, hw⟩ := h.required d hm hn hnone
  obtain ⟨v, hv⟩ := Table.exists_of_mem_names (List.mem_map.mpr ⟨_, hw, rfl⟩)
  obtain ⟨d', hm', hname, hi⟩ := h.inhabit _ _ (Table.mem_of_get? hv)
  have he : d' = d := List.inj_on_of_nodup_map hd hm' hm hname
  subst he
  refine ⟨v, ?_, ne_null_of_inhabits hn hi, hi⟩
  rw [effectiveArguments, Table.get?_filterMap hd hm, hv]
  rfl

end Plan

namespace Execution

open Dialogue (Gives)

variable {setting : Setting ρ} {plan : Plan} {resolver : ρ} {invocation : Invocation}
  {result : CallResult}

/-- A call is made for a node to which keys lead from some others, at the path that these have with
those keys. -/
def Sought (schema : Schema ρ) (plan : Plan) (container : ObjectType ρ) (nodes : List FieldNode)
    (base : List String) (invocation : Invocation) : Prop :=
  ∃ names container' node definition path parent,
    Finds schema container nodes names container' node ∧ path.names = base ++ names ∧
    node.name ≠ Plan.typename ∧ container'.field? node.name = some definition ∧
    invocation = Context.invocation
      ⟨definition.toFieldSignature, node, container'.name, path, plan⟩ parent

theorem sought_mono {schema : Schema ρ} {container : ObjectType ρ} {nodes nodes' : List FieldNode}
    {base : List String} (hs : nodes ⊆ nodes')
    (h : Sought schema plan container nodes base invocation) :
    Sought schema plan container nodes' base invocation := by
  obtain ⟨names, container', node, definition, path, parent, hf, h⟩ := h
  exact ⟨names, container', node, definition, path, parent, finds_mono hs hf, h⟩

theorem sought_below {schema : Schema ρ} {container type : ObjectType ρ} {node : FieldNode}
    {base : List String} {definition : FieldDefinition ρ}
    (hd : container.field? node.name = some definition)
    (ht : schema.object? definition.type.innermost = some type)
    (h : Sought schema plan type node.children (base ++ [node.outputName]) invocation) :
    Sought schema plan container [node] base invocation := by
  obtain ⟨names, container', found, definition', path, parent, hf, hp, h⟩ := h
  rw [List.append_assoc] at hp
  exact ⟨_, container', found, definition', path, parent, .under (by simp) hd ht hf, hp, h⟩

/-- The only call of a field is made with its arguments. -/
theorem eq_of_called {resolution : Resolution ρ} {context : Context} {parent : Json}
    {t : Transcript ρ} {r : Except FieldError Json}
    (h : Resolves setting resolution context parent t r)
    (hc : .called resolver invocation result ∈ t) :
    invocation = Context.invocation context parent := by
  have hallowed : .called resolver invocation result ∉
      (allowance setting.capabilities context : Transcript ρ) := by
    unfold allowance
    split <;> simp
  have hdispatch : ∀ {t : Transcript ρ} {r : Except FieldError Json},
      (dispatch setting resolution (Context.invocation context parent)).Gives t r →
      .called resolver invocation result ∈ t → invocation = Context.invocation context parent := by
    intro t r hd hm
    cases dispatches_of_gives hd with
    | uncalled => cases hm
    | called =>
      rw [List.mem_singleton] at hm
      cases hm
      rfl
  cases h with
  | denied _ => simp at hc
  | failed hd =>
    simp only [List.mem_cons, List.mem_append, reduceCtorEq, false_or, hallowed] at hc
    exact hdispatch hd hc
  | delivered hd =>
    simp only [List.mem_cons, List.mem_append, reduceCtorEq, false_or, hallowed, or_false,
      List.not_mem_nil] at hc
    exact hdispatch hd hc

mutual

/-- Every call below a field is made for a node of its tree. -/
theorem sought_of_completesField : ∀ {node : FieldNode} {container : ObjectType ρ} {parent : Json}
    {path : Path} {t : Transcript ρ} {c : Completion Json},
    CompletesField setting plan node container parent path t c →
      ∀ {base : List String}, path.names = base ++ [node.outputName] →
      .called resolver invocation result ∈ t →
      Sought setting.schema plan container [node] base invocation
  | _, _, _, _, _, _, .typename _, _, _, hc => nomatch hc
  | _, _, _, _, _, _, .undefined _ _, _, _, hc => nomatch hc
  | _, _, _, _, _, _, .failed hn hd hr, _, hp, hc =>
    ⟨_, _, _, _, _, _, .here (List.mem_singleton_self _), hp, hn, hd, eq_of_called hr hc⟩
  | _, _, _, _, _, _, .resolved hn hd hr hv, _, hp, hc => by
    rcases List.mem_append.mp hc with hc | hc
    · exact ⟨_, _, _, _, _, _, .here (List.mem_singleton_self _), hp, hn, hd, eq_of_called hr hc⟩
    · obtain ⟨type, ht, hs⟩ := sought_of_completesValue hv hc
      rw [hp] at hs
      exact sought_below hd ht hs

theorem sought_of_completesFields : ∀ {nodes : List FieldNode} {container : ObjectType ρ}
    {parent : Json} {path : Path} {t : Transcript ρ} {c : Completion (List (String × Json))},
    CompletesFields setting plan nodes container parent path t c →
      .called resolver invocation result ∈ t →
      Sought setting.schema plan container nodes path.names invocation
  | _, _, _, _, _, _, .nil, hc => nomatch hc
  | _, _, _, _, _, _, .cons hf hs, hc => by
    rcases List.mem_append.mp hc with hc | hc
    · exact sought_mono (by simp) (sought_of_completesField hf (by simp [Path.names]) hc)
    · exact sought_mono (by simp) (sought_of_completesFields hs hc)

theorem sought_of_completesValue : ∀ {node : FieldNode} {type : TypeRef} {value : Json}
    {path : Path} {t : Transcript ρ} {c : Completion Json},
    CompletesValue setting plan node type value path t c →
      .called resolver invocation result ∈ t →
      ∃ object, setting.schema.object? type.innermost = some object ∧
        Sought setting.schema plan object node.children path.names invocation
  | _, _, _, _, _, _, .null, hc => nomatch hc
  | _, _, _, _, _, _, .list he, hc => by
    have h := sought_of_completesElements he hc
    exact h
  | _, _, _, _, _, _, .noList _ _, hc => nomatch hc
  | _, _, _, _, _, _, .object _ ht hs, hc =>
    ⟨_, object?_of_find? ht, sought_of_completesFields hs hc⟩
  | _, _, _, _, _, _, .leaf _ _ _, hc => nomatch hc
  | _, _, _, _, _, _, .badLeaf _ _ _ _, hc => nomatch hc
  | _, _, _, _, _, _, .noType _ _, hc => nomatch hc

theorem sought_of_completesElements : ∀ {node : FieldNode} {type : TypeRef} {index : Nat}
    {values : List Json} {path : Path} {t : Transcript ρ} {c : Completion (List Json)},
    CompletesElements setting plan node type index values path t c →
      .called resolver invocation result ∈ t →
      ∃ object, setting.schema.object? type.innermost = some object ∧
        Sought setting.schema plan object node.children path.names invocation
  | _, _, _, _, _, _, _, .nil, hc => nomatch hc
  | _, _, _, _, _, _, _, .cons hv hs, hc => by
    rcases List.mem_append.mp hc with hc | hc
    · have h := sought_of_completesValue hv hc
      rwa [Plan.names_index] at h
    · exact sought_of_completesElements hs hc

end

/-- An invocation has the arguments that a query supplies at its path, where fields with the same
key are one: those of the field that it stems from as they are, and those of all others as far as
they count as the same. No required argument is missing. -/
structure Receives (schema : Schema ρ) (fragments : Table Fragment) (bindings : Plan.Bindings)
    (selections : List Selection) (declared : List ArgumentDefinition) (invocation : Invocation) :
    Prop where
  stems : ∃ head, Leads fragments bindings selections invocation.context.path.names head ∧
    head.name = invocation.context.field.name ∧
    head.position = invocation.context.node.position ∧
    Plan.Filled Eq ArgumentDefinition.default schema bindings head.arguments declared
      invocation.arguments
  merges : ∀ head, Leads fragments bindings selections invocation.context.path.names head →
    head.name = invocation.context.field.name ∧
    Plan.Filled Json.Matches ArgumentDefinition.default schema bindings head.arguments declared
      invocation.arguments
  required : ∀ d ∈ declared, d.type.nullable = false → d.default = none →
    ∃ v, invocation.arguments.get? d.name = some v ∧ v ≠ .null ∧ Inhabits schema d.type v

theorem receives_of_selected {scope : Plan.Scope ρ} {container container' : ObjectType ρ}
    {depth : Nat} {visited : List String} {selections : List Selection} {nodes : List FieldNode}
    {names : List String} {node : FieldNode} {definition : FieldDefinition ρ} {path : Path}
    {parent : Json} (hd : (definition.arguments.map (·.name)).Nodup)
    (h : Plan.selected scope container depth visited selections = .ok nodes)
    (hw : WellSelected scope.schema nodes container)
    (hf : Finds scope.schema container nodes names container' node) (hp : path.names = names)
    (hn : node.name ≠ Plan.typename) (hdef : container'.field? node.name = some definition) :
    Receives scope.schema scope.fragments scope.bindings selections definition.arguments
      (Context.invocation ⟨definition.toFieldSignature, node, container'.name, path, plan⟩
        parent) := by
  obtain ⟨head, hl, hs, hposition⟩ := Plan.exists_leads_of_selected h hf
  have hname := name_of_field? hdef
  obtain ⟨definition', values, hdef', ha, he⟩ := hs.arguments (hs.name ▸ hn)
  rw [← hs.name, hdef, Option.some.injEq] at hdef'
  subst hdef'
  rw [Json.obj.injEq] at he
  subst he
  have hfit := Plan.fit_of_arguments ha
  subst hp
  refine ⟨⟨head, hl, ?_, hposition.symm, ?_⟩, fun head' hl' => ?_, ?_⟩
  · exact hs.name.symm.trans hname.symm
  · exact Plan.filled_effectiveArguments hd (Plan.filled_of_arguments hd ha)
  · obtain ⟨container'', node', hf', hs'⟩ := Plan.exists_finds_of_selected h hl'
    obtain ⟨rfl, rfl⟩ := finds_unique hw hf hf'
    obtain ⟨definition', values', hdef', ha', hm⟩ := hs'.arguments (hs'.name ▸ hn)
    rw [← hs'.name, hdef, Option.some.injEq] at hdef'
    subst hdef'
    exact ⟨hs'.name.symm.trans hname.symm, Plan.filled_effectiveArguments hd
      (Plan.filled_of_matches hd hfit.inOrder hm (Plan.filled_of_arguments hd ha'))⟩
  · exact fun d hm => Plan.required_effectiveArguments hd hfit hm

/-- Whenever a resolver is called, it is called for a field of an object type of the schema, and
with the arguments that the chosen operation supplies for it: each coerced to its type, never
replaced by a default, and with the declared defaults where nothing is supplied. -/
theorem arguments_received {limit : Nat} {document : Document} {name : Option String}
    {supplied : Table Json} {root : Json} {t : Transcript ρ} {envelope : Envelope}
    (hd : setting.schema.ArgumentsDistinct)
    (hp : Plan.ofDocument setting.schema limit document name supplied = .ok plan)
    (hg : (execute setting root plan).Gives t envelope)
    (hc : .called resolver invocation result ∈ t) :
    ∃ operation bindings container definition,
      Plan.chosen document.operations name = .ok (plan.name, operation) ∧
      Plan.bindings setting.schema supplied operation.declarations = .ok bindings ∧
      setting.schema.object? invocation.context.parentType = some container ∧
      container.field? invocation.context.node.name = some definition ∧
      invocation.context.field = definition.toFieldSignature ∧
      Receives setting.schema document.fragments bindings operation.selections
        definition.arguments invocation := by
  obtain ⟨operation, type, bindings, hs, -, hsel⟩ := Plan.exists_starts_of_ofDocument hp
  rcases cases_of_gives hs.container hg with ⟨denial, rfl, -⟩ | ⟨t₁, t₂, c, rfl, ha, hfields, -⟩
  · simp at hc
  · have hc : .called resolver invocation result ∈ t₂ := by
      rcases List.mem_append.mp hc with hc | hc
      · cases ha _ hc
      · exact hc
    obtain ⟨names, container, node, definition, path, parent, hf, hpath, hn, hdef, rfl⟩ :=
      sought_of_completesFields hfields hc
    have hroot : setting.schema.object? type.name = some type := by
      rw [name_of_object? hs.container]
      exact hs.container
    have hobject := object?_of_finds hroot hf
    exact ⟨operation, bindings, container, definition, hs.chosen, hs.bindings, hobject, hdef, rfl,
      receives_of_selected (nodup_of_field? hd hobject hdef) hsel
        (Plan.wellSelected_of_selected hsel) hf hpath hn hdef⟩

end Execution

end GraphGate

namespace GraphGate.Sample

open Execution

theorem argumentsDistinct_schema : schema.ArgumentsDistinct := by
  intro type ht field hf
  simp [schema] at ht
  rcases ht with rfl | rfl <;> simp [query, user] at hf <;> subst hf <;> simp

theorem called_transcript : .called () (Context.invocation userContext .null)
    (.ok (.obj [("name", .str "Ann")])) ∈ transcript (.str "Ann") := by
  simp [transcript]

theorem arguments_received_transcript :
    .called () (Context.invocation userContext .null) (.ok (.obj [("name", .str "Ann")])) ∈
        transcript (.str "Ann") ∧
      ∃ operation bindings container definition,
        Plan.chosen document.operations none = .ok (plan.name, operation) ∧
        Plan.bindings setting.schema [] operation.declarations = .ok bindings ∧
        setting.schema.object? "Query" = some container ∧
        container.field? "user" = some definition ∧
        userContext.field = definition.toFieldSignature ∧
        Receives setting.schema document.fragments bindings operation.selections
          definition.arguments (Context.invocation userContext .null) :=
  ⟨called_transcript, arguments_received argumentsDistinct_schema ofDocument_document
    gives_transcript called_transcript⟩

end GraphGate.Sample
