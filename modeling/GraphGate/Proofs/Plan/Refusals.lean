import GraphGate.Proofs.Plan.Checks
import GraphGate.Proofs.Schema.Closed

/-! Why operations are refused on a closed schema: never for a type that is not there, and for a
missing root only where it has none for mutations. -/
namespace GraphGate.Plan

open Query

variable {ρ α : Type}

/-- Errors for which the schema needs no gap. -/
def Ordinary : PlanError → Prop
  | .fieldTypeUnknown .. | .rootMissing .. => False
  | _ => True

theorem ordinary_of_check {x : Except PlanError α} (h : FailsOnly OfCheck x) :
    FailsOnly Ordinary x := by
  refine failsOnly_imp (fun e he => ?_) h
  cases e with
  | fieldTypeUnknown type position => exact he.elim
  | rootMissing name position => exact he.elim
  | _ => trivial

theorem ordinary_childNodes {schema : Schema ρ} {head : FieldHead} {selections : List Selection}
    {type : TypeRef} {below : ObjectType ρ → Except PlanError (List FieldNode)}
    {inner : TypeDefinition ρ} (ht : schema.find? type.innermost = some inner)
    (hb : ∀ object, .object object ∈ schema.types → FailsOnly Ordinary (below object)) :
    FailsOnly Ordinary (childNodes schema head selections type below) := by
  unfold childNodes
  rw [ht]
  cases inner with
  | object object =>
    dsimp only
    split
    · exact failsOnly_error trivial
    · exact hb object (List.mem_of_find?_eq_some ht)
  | _ =>
    dsimp only
    split
    · exact failsOnly_ok []
    · exact failsOnly_error trivial

section Collect

variable {scope : Scope ρ}

mutual

/-- What is selected on an object of a closed schema is refused for what is written only. -/
theorem ordinary_collect (hs : scope.schema.Closed) {container : ObjectType ρ}
    (hm : .object container ∈ scope.schema.types) (depth : Nat) (visited : List String)
    (selections : List Selection) :
    FailsOnly Ordinary (collect scope container depth visited selections) := by
  match selections with
  | [] =>
    rw [collect_nil]
    exact failsOnly_ok []
  | selection :: rest =>
    have hfirst := ordinary_collectOne hs hm depth visited selection
    have hmore := ordinary_collect hs hm depth visited rest
    rw [collect]
    exact failsOnly_bind hfirst fun _ _ => failsOnly_bind hmore fun _ _ => failsOnly_ok _
termination_by (unvisited scope.fragments visited, sizeOf selections)

theorem ordinary_collectOne (hs : scope.schema.Closed) {container : ObjectType ρ}
    (hm : .object container ∈ scope.schema.types) (depth : Nat) (visited : List String)
    (selection : Selection) :
    FailsOnly Ordinary (collectOne scope container depth visited selection) := by
  match selection with
  | .field head selections =>
    have hn := ordinary_fieldNode hs hm depth visited head selections
    rw [collectOne_field]
    refine failsOnly_bind (ordinary_of_check ofCheck_included) fun wanted _ => ?_
    cases wanted with
    | false => exact failsOnly_ok []
    | true => exact failsOnly_map hn
  | .spread spread =>
    have hn : ∀ fragment, visited.contains spread.name = false →
        scope.fragments.get? spread.name = some fragment →
        FailsOnly Ordinary
          (collect scope container depth (spread.name :: visited) fragment.selections) := by
      intro fragment hv hf
      have hlt := unvisited_cons_lt hf hv
      exact ordinary_collect hs hm depth (spread.name :: visited) fragment.selections
    rw [collectOne_spread]
    refine failsOnly_bind (ordinary_of_check ofCheck_included) fun wanted _ => ?_
    cases wanted with
    | false => exact failsOnly_ok []
    | true =>
      rw [if_pos rfl]
      cases hv : visited.contains spread.name with
      | true => exact failsOnly_error trivial
      | false =>
        cases hf : scope.fragments.get? spread.name with
        | none => exact failsOnly_error trivial
        | some fragment =>
          exact failsOnly_bind (ordinary_of_check ofCheck_checkCondition) fun _ _ =>
            hn fragment hv hf
  | .inline head selections =>
    have hn := ordinary_collect hs hm depth visited selections
    rw [collectOne_inline]
    refine failsOnly_bind (ordinary_of_check ofCheck_included) fun wanted _ => ?_
    cases wanted with
    | false => exact failsOnly_ok []
    | true => exact failsOnly_bind (ordinary_of_check ofCheck_checkInline) fun _ _ => hn
termination_by (unvisited scope.fragments visited, sizeOf selection)
decreasing_by
  · exact Prod.Lex.right _ sizeOf_lt_field
  · exact Prod.Lex.left _ _ hlt
  · exact Prod.Lex.right _ sizeOf_lt_inline

theorem ordinary_fieldNode (hs : scope.schema.Closed) {container : ObjectType ρ}
    (hm : .object container ∈ scope.schema.types) (depth : Nat) (visited : List String)
    (head : FieldHead) (selections : List Selection) :
    FailsOnly Ordinary (fieldNode scope container depth visited head selections) := by
  have hc : ∀ object : ObjectType ρ, .object object ∈ scope.schema.types →
      FailsOnly Ordinary (collect scope object (depth + 1) visited selections) :=
    fun object ho => ordinary_collect hs ho (depth + 1) visited selections
  by_cases hd : scope.depthLimit < depth
  · rw [fieldNode_of_tooDeep scope hd]
    exact failsOnly_error trivial
  · have hd' := Nat.not_lt.mp hd
    by_cases hn : head.name = typename
    · rw [fieldNode_typename scope hd' hn]
      exact ordinary_of_check ofCheck_typenameNode
    · cases hf : container.field? head.name with
      | none =>
        rw [fieldNode_unknown scope hd' hn hf]
        exact failsOnly_error trivial
      | some definition =>
        obtain ⟨inner, ht, -⟩ := hs.exists_isOutput_of_field? hm hf
        rw [fieldNode_of_field? scope hd' hn hf]
        refine failsOnly_bind (ordinary_childNodes ht fun object ho => ?_) fun _ _ =>
          failsOnly_bind (ordinary_of_check ofCheck_arguments) fun _ _ => failsOnly_ok _
        exact failsOnly_bind (hc object ho) fun _ _ => ordinary_of_check ofCheck_overlay
termination_by (unvisited scope.fragments visited, sizeOf selections + 1)

end

end Collect

section Refusal

variable {schema : Schema ρ} {document : Document} {limit : Nat} {name : Option String}
  {supplied : Table Json}

theorem ordinary_chosen {operations : Operations} :
    FailsOnly Ordinary (chosen operations name) := by
  unfold chosen
  split
  · exact failsOnly_ok _
  · exact failsOnly_error trivial
  · exact failsOnly_ok _
  · exact failsOnly_error trivial
  · split
    · exact failsOnly_ok _
    · exact failsOnly_error trivial

theorem ordinary_variableValue {definition : VariableDefinition} :
    FailsOnly Ordinary (variableValue schema supplied definition) := by
  unfold variableValue
  dsimp only
  split
  · split
    · exact failsOnly_ok _
    · exact failsOnly_error trivial
  · split
    · exact failsOnly_ok none
    · exact failsOnly_error trivial

theorem ordinary_bindings {definitions : List VariableDefinition} :
    FailsOnly Ordinary (bindings schema supplied definitions) := by
  refine failsOnly_map ?_
  induction definitions with
  | nil => exact failsOnly_ok []
  | cons definition rest ih =>
    rw [variablePairs]
    refine failsOnly_bind ordinary_variableValue fun _ _ => ?_
    exact failsOnly_bind ih fun _ _ => failsOnly_ok _

/-- A document asks for a mutation, and the schema has no root for mutations. -/
def AsksMutation (schema : Schema ρ) (document : Document) (name : Option String) (e : PlanError) :
    Prop :=
  ∃ label operation, chosen document.operations name = .ok (label, operation) ∧
    operation.type = .mutation ∧ schema.mutation = none ∧
    e = .rootMissing "mutation" (some operation.position)

/-- Every schema has a root for queries, so a root can only be missing for a mutation. -/
theorem refusals_rootName {label : Option String} {operation : Operation}
    (hc : chosen document.operations name = .ok (label, operation)) :
    FailsOnly (fun e => Ordinary e ∨ AsksMutation schema document name e)
      (rootName schema operation) := by
  unfold rootName
  split
  · exact failsOnly_ok _
  · next ht =>
    split
    · exact failsOnly_ok _
    · next hm => exact failsOnly_error (.inr ⟨label, operation, hc, ht, hm, rfl⟩)
  · exact failsOnly_error (.inl trivial)

theorem object?_of_rootName (hs : schema.Closed) {operation : Operation} {root : String}
    (h : rootName schema operation = .ok root) : ∃ type, schema.object? root = some type := by
  unfold rootName at h
  split at h
  · cases h
    exact hs.query
  · split at h
    · next hm =>
      cases h
      exact hs.mutation root hm
    · cases h
  · cases h

theorem refusals_ofDocument (hs : schema.Closed) :
    FailsOnly (fun e => Ordinary e ∨ AsksMutation schema document name e)
      (ofDocument schema limit document name supplied) := by
  refine failsOnly_bind (failsOnly_imp (fun _ => .inl) ordinary_chosen) fun chosen hchosen => ?_
  obtain ⟨label, operation⟩ := chosen
  refine failsOnly_bind (refusals_rootName hchosen) fun root hroot => ?_
  obtain ⟨type, htype⟩ := object?_of_rootName hs hroot
  rw [htype]
  refine failsOnly_bind (failsOnly_ok type) fun container hcontainer => ?_
  cases hcontainer
  refine failsOnly_imp (fun _ => .inl) (failsOnly_bind ordinary_bindings fun bindings _ => ?_)
  have hcollect : FailsOnly Ordinary (collect ⟨schema, document.fragments, bindings, limit⟩ type 1
      [] operation.selections) := ordinary_collect hs (mem_of_object? htype) 1 [] _
  refine failsOnly_bind ?_ fun _ _ => failsOnly_ok _
  exact failsOnly_bind hcollect fun _ _ => ordinary_of_check ofCheck_overlay

theorem refusals_ofQuery (hs : schema.Closed) {query : Option String} :
    FailsOnly (fun e => Ordinary e ∨ ∃ text document, query = some text ∧
        Document.parse text = .ok document ∧ AsksMutation schema document name e)
      (ofQuery schema limit query name supplied) := by
  unfold ofQuery
  split
  · exact failsOnly_error (.inl trivial)
  · next text =>
    split
    · exact failsOnly_error (.inl trivial)
    · split
      · exact failsOnly_error (.inl trivial)
      · next document hparse =>
        refine failsOnly_imp (fun e he => ?_) (refusals_ofDocument hs)
        exact he.imp_right fun hasks => ⟨text, document, rfl, hparse, hasks⟩

end Refusal

end GraphGate.Plan
