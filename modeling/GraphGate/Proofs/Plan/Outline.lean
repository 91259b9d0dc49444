import GraphGate.Plan.Build
import GraphGate.Proofs.Plan.Collection

/-! Plans depend on the outline of a schema only, not on how the values of its fields are found. -/
namespace GraphGate

open Query

variable {ρ : Type}

/-- A field without the way in which its value is found. -/
def FieldDefinition.outline (definition : FieldDefinition ρ) : FieldDefinition Empty :=
  ⟨definition.toFieldSignature, .default⟩

def ObjectType.outline (type : ObjectType ρ) : ObjectType Empty :=
  ⟨type.name, type.fields.map FieldDefinition.outline, none⟩

def TypeDefinition.outline : TypeDefinition ρ → TypeDefinition Empty
  | .scalar name => .scalar name
  | .enum name values => .enum name values
  | .input name fields => .input name fields
  | .object type => .object type.outline

def Schema.outline (schema : Schema ρ) : Schema Empty :=
  ⟨schema.types.map TypeDefinition.outline, schema.query, schema.mutation⟩

def Plan.Scope.outline (scope : Plan.Scope ρ) : Plan.Scope Empty :=
  { scope with schema := scope.schema.outline }

theorem name_outline (definition : TypeDefinition ρ) :
    definition.outline.name = definition.name := by
  cases definition <;> rfl

theorem find?_outline (schema : Schema ρ) (name : String) :
    schema.outline.find? name = (schema.find? name).map TypeDefinition.outline := by
  rw [Schema.find?, Schema.outline, List.find?_map]
  congr 2
  funext definition
  simp [name_outline]

theorem object?_outline (schema : Schema ρ) (name : String) :
    schema.outline.object? name = (schema.object? name).map ObjectType.outline := by
  rw [Schema.object?, Schema.object?, find?_outline]
  cases schema.find? name with
  | none => rfl
  | some definition => cases definition <;> rfl

theorem field?_outline (type : ObjectType ρ) (name : String) :
    type.outline.field? name = (type.field? name).map FieldDefinition.outline := by
  rw [ObjectType.field?, ObjectType.outline, List.find?_map]
  rfl

namespace Coercion

variable (schema : Schema ρ)

theorem atName_outline (v : Constant) (supplied : Table Supplied) (name : String) :
    atName schema.outline v supplied name = atName schema v supplied name := by
  rw [atName, atName, find?_outline]
  cases schema.find? name with
  | none => rfl
  | some definition => cases definition <;> rfl

theorem coerce_outline_of_single {v : Constant} (hv : v ≠ .null)
    (hl : ∀ elements, v ≠ .list elements) (ho : ∀ fields, v ≠ .object fields) :
    coerce schema.outline v = coerce schema v := by
  funext type
  rw [coerce, coerce]
  · congr 1
    funext name
    exact atName_outline schema v [] name
  all_goals simp_all

mutual

theorem coerce_outline : ∀ v : Constant, coerce schema.outline v = coerce schema v
  | .var name => nomatch name
  | .null => by
    funext type
    rw [coerce, coerce]
  | .list elements => by
    funext type
    cases type with
    | named name nullable =>
      rw [coerce, coerce]
      exact atName_outline schema _ [] name
    | list element nullable => rw [coerce, coerce, coerceElements_outline elements]
  | .object fields => by
    funext type
    rw [coerce, coerce, coerceFields_outline fields]
    congr 1
    funext name
    exact atName_outline schema _ _ name
  | .number _ => coerce_outline_of_single schema (by simp) (by simp) (by simp)
  | .string _ => coerce_outline_of_single schema (by simp) (by simp) (by simp)
  | .bool _ => coerce_outline_of_single schema (by simp) (by simp) (by simp)
  | .enum _ => coerce_outline_of_single schema (by simp) (by simp) (by simp)

theorem coerceElements_outline : ∀ (vs : List Constant) (type : TypeRef),
    coerceElements schema.outline vs type = coerceElements schema vs type
  | [], type => rfl
  | v :: rest, type => by
    rw [coerceElements, coerceElements, coerce_outline v, coerceElements_outline rest]

theorem coerceFields_outline : ∀ fields : List (String × Constant),
    coerceFields schema.outline fields = coerceFields schema fields
  | [] => rfl
  | (k, v) :: rest => by
    rw [coerceFields, coerceFields, coerce_outline v, coerceFields_outline rest]

end

end Coercion

namespace Plan

section

variable (schema : Schema ρ)

theorem argumentValue_outline (bindings : Bindings) (position : Position) (field : String)
    (supplied : Table Argument) (d : ArgumentDefinition) :
    argumentValue schema.outline bindings position field supplied d =
      argumentValue schema bindings position field supplied d := by
  unfold argumentValue
  simp only [Coercion.coerce_outline]

theorem argumentValues_outline (bindings : Bindings) (position : Position) (field : String)
    (supplied : Table Argument) (ds : List ArgumentDefinition) :
    argumentValues schema.outline bindings position field supplied ds =
      argumentValues schema bindings position field supplied ds := by
  induction ds with
  | nil => rfl
  | cons d rest ih => rw [argumentValues, argumentValues, argumentValue_outline, ih]

theorem arguments_outline (bindings : Bindings) (head : FieldHead)
    (definition : FieldDefinition ρ) :
    arguments schema.outline bindings head definition.outline =
      arguments schema bindings head definition := by
  unfold arguments
  simp only [argumentValues_outline]
  rfl

theorem variablePairs_outline (supplied : Table Json) (definitions : List VariableDefinition) :
    variablePairs schema.outline supplied definitions =
      variablePairs schema supplied definitions := by
  induction definitions with
  | nil => rfl
  | cons definition rest ih =>
    rw [variablePairs, variablePairs, ih]
    congr 1
    unfold variableValue
    simp only [Coercion.coerce_outline]

end

theorem checkCondition_outline (container : ObjectType ρ) (condition : String)
    (position : Position) :
    checkCondition container.outline condition position =
      checkCondition container condition position := rfl

mutual

theorem collect_outline (scope : Scope ρ) (container : ObjectType ρ) (depth : Nat)
    (visited : List String) (selections : List Selection) :
    collect scope.outline container.outline depth visited selections =
      collect scope container depth visited selections := by
  match selections with
  | [] => rw [collect, collect]
  | selection :: rest =>
    rw [collect, collect, collectOne_outline scope container depth visited selection,
      collect_outline scope container depth visited rest]
termination_by (unvisited scope.fragments visited, sizeOf selections)

theorem collectOne_outline (scope : Scope ρ) (container : ObjectType ρ) (depth : Nat)
    (visited : List String) (selection : Selection) :
    collectOne scope.outline container.outline depth visited selection =
      collectOne scope container depth visited selection := by
  match selection with
  | .field head selections =>
    rw [collectOne, collectOne, fieldNode_outline scope container depth visited head selections]
    rfl
  | .spread spread =>
    rw [collectOne, collectOne]
    have hb : scope.outline.bindings = scope.bindings := rfl
    have hf : scope.outline.fragments = scope.fragments := rfl
    rw [hb]
    congr 1
    funext wanted
    split
    · split
      · next hv => rfl
      · next hv =>
        split
        · next hn =>
          rw [hf] at hn
          split
          · rfl
          · next hs =>
            rw [hn] at hs
            cases hs
        · next fragment hs =>
          rw [hf] at hs
          split
          · next hn =>
            rw [hs] at hn
            cases hn
          · next fragment' hs' =>
            rw [hs, Option.some.injEq] at hs'
            subst hs'
            have hlt := unvisited_cons_lt hs hv
            rw [checkCondition_outline,
              collect_outline scope container depth (spread.name :: visited) fragment.selections]
    · rfl
  | .inline head selections =>
    rw [collectOne, collectOne, collect_outline scope container depth visited selections]
    rfl
termination_by (unvisited scope.fragments visited, sizeOf selection)
decreasing_by
  · exact Prod.Lex.right _ sizeOf_lt_field
  · exact Prod.Lex.left _ _ hlt
  · exact Prod.Lex.right _ sizeOf_lt_inline

theorem fieldNode_outline (scope : Scope ρ) (container : ObjectType ρ) (depth : Nat)
    (visited : List String) (head : FieldHead) (selections : List Selection) :
    fieldNode scope.outline container.outline depth visited head selections =
      fieldNode scope container depth visited head selections := by
  rw [fieldNode, fieldNode, field?_outline]
  cases container.field? head.name with
  | none => rfl
  | some definition =>
    have hs : scope.outline.schema = scope.schema.outline := rfl
    have hb : scope.outline.bindings = scope.bindings := rfl
    have ht : definition.outline.type = definition.type := rfl
    simp only [Option.map_some, hs, hb, ht, find?_outline, arguments_outline]
    cases scope.schema.find? definition.type.innermost with
    | none => rfl
    | some inner =>
      cases inner with
      | object type =>
        simp only [Option.map_some, TypeDefinition.outline,
          collect_outline scope type (depth + 1) visited selections]
        rfl
      | _ => rfl
termination_by (unvisited scope.fragments visited, sizeOf selections + 1)

end

theorem ofOperation_outline (schema : Schema ρ) (limit : Nat) (fragments : Table Fragment)
    (name : Option String) (operation : Operation) (supplied : Table Json) :
    ofOperation schema.outline limit fragments name operation supplied =
      ofOperation schema limit fragments name operation supplied := by
  unfold ofOperation
  have hr : rootName schema.outline operation = rootName schema operation := rfl
  rw [hr]
  congr 1
  funext root
  simp only [object?_outline, bindings, variablePairs_outline]
  cases schema.object? root with
  | none => rfl
  | some type =>
    have hc : ∀ bindings, collect ⟨schema.outline, fragments, bindings, limit⟩ type.outline 1 []
        operation.selections = collect ⟨schema, fragments, bindings, limit⟩ type 1 []
          operation.selections := fun bindings =>
      collect_outline ⟨schema, fragments, bindings, limit⟩ type 1 [] operation.selections
    simp only [Option.map_some, selected, pure_bind, hc]

/-- Planning an operation takes no notice of how values are found. -/
theorem ofQuery_outline (schema : Schema ρ) (limit : Nat) (query : Option String)
    (name : Option String) (supplied : Table Json) :
    ofQuery schema.outline limit query name supplied =
      ofQuery schema limit query name supplied := by
  unfold ofQuery ofDocument
  simp only [ofOperation_outline]

end Plan

end GraphGate
