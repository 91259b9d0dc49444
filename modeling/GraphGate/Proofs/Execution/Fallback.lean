import GraphGate.Proofs.Gateway
import GraphGate.Proofs.Plan.Refusals

/-! An execution with other answers at the places where something is missing. In a schema that was
built nothing is, so these answers are never given. -/
namespace GraphGate.Execution

variable {ρ : Type}

/-- What to do where something is missing. -/
structure Fallback (ρ : Type) where
  /-- The root is not an object of the schema. -/
  root : Plan → Dialogue ρ Envelope
  /-- The object has no such field. -/
  field : ObjectType ρ → FieldNode → Path → Dialogue ρ (Completion Json)
  /-- The name has no type, or one whose values only go in. -/
  value : String → Bool → FieldNode → Json → Path → Dialogue ρ (Completion Json)

/-- What `execute` itself does there. -/
def Fallback.own : Fallback ρ where
  root plan := pure (.rejected (.ofPlan (.rootMissing plan.root none)))
  field container node path :=
    pure ⟨some .null, [.ofField (.fieldUndefined container.name node.name) node path]⟩
  value name nullable node value path :=
    match value with
    | .null => pure (if nullable then .ok .null else .failed (.ofField (.nullValue path) node path))
    | value => pure ((Completion.failed (.ofField (.invalidValue name value) node path)).orNull
        nullable)

variable (fb : Fallback ρ)

/-- A value at a type, the fallback's at names under which nothing comes out. -/
def completeElse (schema : Schema ρ) (node : FieldNode)
    (object : ObjectType ρ → Json → Path → Dialogue ρ (Completion Json)) :
    TypeRef → Json → Path → Dialogue ρ (Completion Json)
  | .named name nullable, value, path =>
    -- Null is no exception: whatever value comes to such a name is the fallback's.
    if (schema.find? name).any (·.isOutput) then
      complete schema node object (.named name nullable) value path
    else fb.value name nullable node value path
  | .list element nullable, .arr elements, path => do
    let elements ← completeElements (completeElse schema node object element) path 0 elements
    return (elements.map .arr).orNull nullable
  | .list element nullable, value, path =>
    complete schema node object (.list element nullable) value path

mutual

def completeFieldElse (setting : Setting ρ) (plan : Plan) :
    FieldNode → ObjectType ρ → Json → Path → Dialogue ρ (Completion Json)
  | ⟨aliasName, name, arguments, children, position⟩, container, parent, path =>
    let node : FieldNode := ⟨aliasName, name, arguments, children, position⟩
    let below : ObjectType ρ → Json → Path → Dialogue ρ (Completion Json) :=
      fun type value path => do
        let pairs ← completeFieldsElse setting plan children type value path
        return pairs.map fun pairs => .obj (Table.ofPairs pairs)
    if name = Plan.typename then pure (.ok (.str container.name))
    else match container.field? name with
      | none => fb.field container node path
      | some definition => do
        match ← resolve setting definition node container.name parent path plan with
        | .error e =>
          return (Completion.failed (.ofField e node path)).orNull definition.type.nullable
        | .ok value => completeElse fb setting.schema node below definition.type value path

def completeFieldsElse (setting : Setting ρ) (plan : Plan) :
    List FieldNode → ObjectType ρ → Json → Path → Dialogue ρ (Completion (List (String × Json)))
  | [], _, _, _ => pure (.ok [])
  | node :: rest, container, parent, path => do
    let first ← completeFieldElse setting plan node container parent
      (path ++ [.field node.outputName])
    let more ← completeFieldsElse setting plan rest container parent path
    return .both (fun value pairs => (node.outputName, value) :: pairs) first more

end

/-- `execute`, with the fallback's answers where something is missing. -/
def executeElse (setting : Setting ρ) (root : Json) (plan : Plan) : Dialogue ρ Envelope := do
  match ← Dialogue.operationDecision setting.capabilities plan with
  | .deny denial => return .rejected (.ofOperation denial)
  | .allow =>
    match setting.schema.object? plan.root with
    | none => fb.root plan
    | some type => do
      let completed ← completeFieldsElse fb setting plan plan.fields type root []
      return ⟨(completed.value.map fun pairs => .obj (Table.ofPairs pairs)).getD .null,
        completed.errors⟩

section Own

variable {schema : Schema ρ} {node : FieldNode}
  {object : ObjectType ρ → Json → Path → Dialogue ρ (Completion Json)}

/-- Where nothing can come out, every value but null is a failure under the name itself. -/
theorem complete_of_not_isOutput {name : String} {nullable : Bool}
    (h : ¬(schema.find? name).any (·.isOutput) = true) :
    complete schema node object (.named name nullable) = Fallback.own.value name nullable node := by
  funext value path
  by_cases hv : value = .null
  · subst hv
    rfl
  · have hown : Fallback.own.value (ρ := ρ) name nullable node value path =
        .done ((Completion.failed (.ofField (.invalidValue name value) node path)).orNull
          nullable) := by
      cases value with
      | null => exact absurd rfl hv
      | _ => rfl
    rw [hown, complete]
    · cases ht : schema.find? name with
      | none => rfl
      | some definition =>
        rw [ht] at h
        cases definition with
        | input name' fields =>
          have hname : name' = name := name_of_find? ht
          subst hname
          rfl
        | _ => exact absurd rfl h
    · exact hv

theorem completeElse_own (type : TypeRef) :
    completeElse .own schema node object type = complete schema node object type := by
  induction type with
  | named name nullable =>
    funext value path
    rw [completeElse]
    split
    · rfl
    · next h => rw [complete_of_not_isOutput h]
  | list element nullable ih =>
    funext value path
    cases value with
    | arr elements =>
      rw [completeElse, complete, ih]
    | _ => rfl

variable {setting : Setting ρ} {plan : Plan}

mutual

theorem completeFieldElse_own : ∀ node : FieldNode,
    completeFieldElse .own setting plan node = completeField setting plan node
  | ⟨aliasName, name, arguments, children, position⟩ => by
    have hbelow := completeFieldsElse_own children
    funext container parent path
    rw [completeFieldElse, completeField]
    simp only [hbelow, completeElse_own]
    rfl

theorem completeFieldsElse_own : ∀ nodes : List FieldNode,
    completeFieldsElse .own setting plan nodes = completeFields setting plan nodes
  | [] => by
    funext container parent path
    rw [completeFieldsElse, completeFields]
  | node :: rest => by
    have hfirst := completeFieldElse_own node
    have hmore := completeFieldsElse_own rest
    funext container parent path
    rw [completeFieldsElse, completeFields, hfirst, hmore]

end

/-- With its own answers it is the execution itself, for every plan. -/
theorem executeElse_own {root : Json} :
    executeElse .own setting root plan = execute setting root plan := by
  unfold executeElse execute
  rw [completeFieldsElse_own]
  rfl

end Own

section Closed

variable {fb₁ fb₂ : Fallback ρ} {schema : Schema ρ} {node : FieldNode}
  {object₁ object₂ : ObjectType ρ → Json → Path → Dialogue ρ (Completion Json)}

/-- A value at a name asks for no object but the one under that name. -/
theorem complete_named_congr {name : String} {nullable : Bool}
    (h : ∀ type, schema.object? name = some type → object₁ type = object₂ type) :
    complete schema node object₁ (.named name nullable) =
      complete schema node object₂ (.named name nullable) := by
  funext value path
  by_cases hv : value = .null
  · subst hv
    rfl
  · rw [complete, complete]
    · cases ht : schema.find? name with
      | none => rfl
      | some definition =>
        cases definition with
        | object type =>
          have hobject := h type (object?_of_find? ht)
          simp only [hobject]
        | _ => rfl
    all_goals exact hv

/-- Where the type inside is there and can come out, the fallback is never asked. -/
theorem completeElse_congr {type : TypeRef} {inner : TypeDefinition ρ}
    (ht : schema.find? type.innermost = some inner) (ho : inner.isOutput = true)
    (h : ∀ object, schema.object? type.innermost = some object → object₁ object = object₂ object) :
    completeElse fb₁ schema node object₁ type = completeElse fb₂ schema node object₂ type := by
  induction type with
  | named name nullable =>
    have hany : (schema.find? name).any (·.isOutput) = true := by
      rw [TypeRef.innermost] at ht
      rw [ht]
      exact ho
    have hcomplete : complete schema node object₁ (.named name nullable) =
        complete schema node object₂ (.named name nullable) := complete_named_congr h
    funext value path
    rw [completeElse, completeElse, if_pos hany, if_pos hany, hcomplete]
  | list element nullable ih =>
    have hlist := ih ht h
    funext value path
    cases value with
    | arr elements =>
      rw [completeElse, completeElse, hlist]
    | _ => rfl

variable {setting : Setting ρ} {plan : Plan}

-- By induction on the nodes. Each object that is met is the schema's own, so closedness gives its
-- fields their types, and what is selected on it is well formed, so its fields are there.
mutual

theorem completeFieldElse_congr (hs : setting.schema.Closed) :
    ∀ (node : FieldNode) {container : ObjectType ρ}, .object container ∈ setting.schema.types →
      node.WellFormed setting.schema container →
      completeFieldElse fb₁ setting plan node container =
        completeFieldElse fb₂ setting plan node container
  | ⟨aliasName, name, arguments, children, position⟩, container, hm, hw => by
    funext parent path
    rw [completeFieldElse, completeFieldElse]
    by_cases hn : name = Plan.typename
    · rw [if_pos hn, if_pos hn]
    · rw [if_neg hn, if_neg hn]
      cases hf : container.field? name with
      | none => exact absurd hf (not_undefined hw hn)
      | some definition =>
        have hfits := fits_of_wellFormed hw hn hf
        obtain ⟨inner, ht, ho⟩ := hs.exists_isOutput_of_field? hm hf
        have hbelow : ∀ object, setting.schema.object? definition.type.innermost = some object →
            completeFieldsElse fb₁ setting plan children object =
              completeFieldsElse fb₂ setting plan children object := by
          intro object hobject
          have hselected := hfits object hobject
          exact completeFieldsElse_congr hs children (mem_of_object? hobject) hselected.wellFormed
        refine bind_congr fun result => ?_
        cases result with
        | error e => rfl
        | ok value =>
          refine congrFun (congrFun (completeElse_congr ht ho fun object hobject => ?_) value) path
          funext value path
          rw [hbelow object hobject]

theorem completeFieldsElse_congr (hs : setting.schema.Closed) :
    ∀ (nodes : List FieldNode) {container : ObjectType ρ},
      .object container ∈ setting.schema.types →
      (∀ node ∈ nodes, node.WellFormed setting.schema container) →
      completeFieldsElse fb₁ setting plan nodes container =
        completeFieldsElse fb₂ setting plan nodes container
  | [], container, hm, hw => by
    funext parent path
    rw [completeFieldsElse, completeFieldsElse]
  | node :: rest, container, hm, hw => by
    have hfirst := completeFieldElse_congr hs node hm (hw node List.mem_cons_self)
    have hmore := completeFieldsElse_congr hs rest hm fun n hn => hw n (List.mem_cons_of_mem _ hn)
    funext parent path
    rw [completeFieldsElse, completeFieldsElse, hfirst, hmore]

end

/-- A plan that selects well on a closed schema leaves nothing to the fallback. -/
theorem executeElse_congr (hs : setting.schema.Closed) {type : ObjectType ρ}
    (ht : setting.schema.object? plan.root = some type)
    (hw : WellSelected setting.schema plan.fields type) (root : Json) :
    executeElse fb₁ setting root plan = executeElse fb₂ setting root plan := by
  have hfields : completeFieldsElse fb₁ setting plan plan.fields type =
      completeFieldsElse fb₂ setting plan plan.fields type :=
    completeFieldsElse_congr hs plan.fields (mem_of_object? ht) hw.wellFormed
  unfold executeElse
  simp only [ht, hfields]

end Closed

/-- On a schema that was built, no request is refused because a field's type is missing, and one
that asks for a root in vain is a mutation where the schema has none. What is planned for it is
executed in the same way whatever would be done without the root, for an unknown field, or at a
type that is missing or takes input only. -/
theorem nothing_missing_of_build {definitions : List (TypeDefinition ρ)} {query : String}
    {mutation : Option String} {schema : Schema ρ}
    (h : Schema.build definitions query mutation = .ok schema) (limit : Nat)
    (text name : Option String) (supplied : Table Json) :
    (∀ type position, Plan.ofQuery schema limit text name supplied ≠
      .error (.fieldTypeUnknown type position)) ∧
    (∀ missing position, Plan.ofQuery schema limit text name supplied =
        .error (.rootMissing missing position) →
      ∃ written document label operation, text = some written ∧
        Query.Document.parse written = .ok document ∧
        Plan.chosen document.operations name = .ok (label, operation) ∧
        operation.type = .mutation ∧ schema.mutation = none ∧
        missing = "mutation" ∧ position = some operation.position) ∧
    ∀ plan, Plan.ofQuery schema limit text name supplied = .ok plan →
      ∀ (setting : Setting ρ) (root : Json) (fb : Fallback ρ), setting.schema = schema →
        executeElse fb setting root plan = execute setting root plan := by
  have hs : schema.Closed := Schema.closed_of_build h
  have hrefusals : FailsOnly _ (Plan.ofQuery schema limit text name supplied) :=
    Plan.refusals_ofQuery hs
  refine ⟨?_, ?_, ?_⟩
  · intro type position he
    rcases hrefusals _ he with hordinary | ⟨_, _, _, _, hasks⟩
    · exact hordinary
    · obtain ⟨_, _, _, _, _, hmissing⟩ := hasks
      cases hmissing
  · intro missing position he
    rcases hrefusals _ he with hordinary | ⟨written, document, hw, hd, hasks⟩
    · exact hordinary.elim
    · obtain ⟨label, operation, hc, ht, hm, hmissing⟩ := hasks
      cases hmissing
      exact ⟨written, document, label, operation, hw, hd, hc, ht, hm, rfl, rfl⟩
  · intro plan hplan setting root fb hschema
    subst hschema
    obtain ⟨type, ht, hw⟩ := exists_wellSelected_of_ofQuery hplan
    calc executeElse fb setting root plan
        = executeElse .own setting root plan := executeElse_congr hs ht hw root
      _ = execute setting root plan := executeElse_own

end GraphGate.Execution

namespace GraphGate.Sample

open Execution

/-- The schema that is built for users. -/
def built : Schema Unit where
  types := Schema.builtinScalars.map .scalar ++ [.object query, .object user]
  query := "Query"
  mutation := none

theorem build_built : Schema.build [.object query, .object user] "Query" none = .ok built := by cbv

/-- Whether a text was read as the document. -/
def readAsDocument : Except DocumentError Query.Document → Bool
  | .ok ⟨.single ⟨⟨1, 1⟩, .query, [], [.field
      ⟨⟨1, 3⟩, none, "user", [⟨"id", ⟨1, 12⟩, .number (.int 7)⟩], []⟩
      [.field ⟨⟨1, 17⟩, none, "name", [], []⟩ []]]⟩, []⟩ => true
  | _ => false

theorem parse_document : Query.Document.parse "{ user(id: 7) { name } }" = .ok document := by
  have h : readAsDocument (Query.Document.parse "{ user(id: 7) { name } }") = true := by
    decide +kernel
  generalize Query.Document.parse "{ user(id: 7) { name } }" = parsed at h
  unfold readAsDocument at h
  split at h
  · rfl
  · cases h

theorem ofQuery_built :
    Plan.ofQuery built 64 (some "{ user(id: 7) { name } }") none [] = .ok plan := by
  have hblank : Text.isBlankText "{ user(id: 7) { name } }" = false := by decide +kernel
  have hplan : Plan.ofDocument built 64 document none [] = .ok plan := by cbv
  rw [Plan.ofQuery, hblank, if_neg Bool.false_ne_true, parse_document]
  exact hplan

/-- No word where something is missing. -/
def silent : Fallback Unit where
  root _ := pure ⟨.null, []⟩
  field _ _ _ := pure ⟨none, []⟩
  value _ _ _ _ _ := pure ⟨none, []⟩

theorem nothing_missing_of_build_built :
    Schema.build [.object query, .object user] "Query" none = .ok built ∧
      Plan.ofQuery built 64 (some "{ user(id: 7) { name } }") none [] = .ok plan ∧
      executeElse silent ⟨built, .empty, ⟨false, false⟩⟩ .null plan =
        execute ⟨built, .empty, ⟨false, false⟩⟩ .null plan :=
  have h := nothing_missing_of_build build_built 64 (some "{ user(id: 7) { name } }") none []
  ⟨build_built, ofQuery_built, h.2.2 plan ofQuery_built _ .null silent rfl⟩

end GraphGate.Sample
