import GraphGate.Proofs.Failure
import GraphGate.Proofs.Plan.Steps
import GraphGate.Proofs.Plan.WellFormed

/-! What the checks of single selections may fail with: everything but the search for fragments and
the look-up of fields and their types. -/
namespace GraphGate.Plan

open Query

/-- Errors about what is written in one selection, or about two that do not go together. -/
def OfCheck : PlanError → Prop
  | .variableUndeclared .. | .fragmentType .. | .selectionOnLeaf .. | .conflict ..
  | .argumentMissing .. | .strayArguments .. | .argumentType .. | .directiveUnknown ..
  | .directiveCondition .. => True
  | _ => False

variable {ρ : Type} {bindings : Bindings} {position : Position}

theorem ofCheck_resolveArgument {value : Literal} :
    FailsOnly OfCheck (resolveArgument bindings position value) := by
  have hvar : ∀ name, FailsOnly OfCheck (variableConstant bindings position name) := by
    intro name
    unfold variableConstant
    cases bindings.get? name with
    | none => exact failsOnly_error trivial
    | some value => exact failsOnly_ok _
  unfold resolveArgument
  split
  · next name =>
    cases bindings.get? name with
    | none => exact failsOnly_error trivial
    | some value => exact failsOnly_ok _
  · exact failsOnly_map (Value.failsOnly_substitute hvar value)

theorem ofCheck_included {directives : List Directive} :
    FailsOnly OfCheck (included bindings directives) := by
  induction directives with
  | nil => exact failsOnly_ok true
  | cons directive rest ih =>
    rw [included]
    split
    · exact failsOnly_error trivial
    · split
      · exact failsOnly_error trivial
      · split
        · next he => exact failsOnly_error (ofCheck_resolveArgument _ he)
        · split
          · exact ih
          · exact failsOnly_ok false
        · exact failsOnly_error trivial

theorem ofCheck_checkCondition {container : ObjectType ρ} {condition : String} :
    FailsOnly OfCheck (checkCondition container condition position) := by
  unfold checkCondition
  split
  · exact failsOnly_ok ()
  · exact failsOnly_error trivial

theorem ofCheck_checkInline {container : ObjectType ρ} {head : InlineHead} :
    FailsOnly OfCheck (checkInline container head) := by
  unfold checkInline
  split
  · exact ofCheck_checkCondition
  · exact failsOnly_ok ()

theorem ofCheck_argumentValues {schema : Schema ρ} {field : String} {supplied : Table Argument}
    {definitions : List ArgumentDefinition} :
    FailsOnly OfCheck (argumentValues schema bindings position field supplied definitions) := by
  induction definitions with
  | nil => exact failsOnly_ok []
  | cons definition rest ih =>
    have hvalue : FailsOnly OfCheck
        (argumentValue schema bindings position field supplied definition) := by
      rw [argumentValue_eq]
      refine failsOnly_bind ?_ fun value _ => ?_
      · unfold writtenValue
        split
        · exact ofCheck_resolveArgument
        · exact failsOnly_ok none
      · unfold typedValue
        split
        · split
          · exact failsOnly_ok _
          · exact failsOnly_error trivial
        · split
          · exact failsOnly_error trivial
          · exact failsOnly_ok none
    rw [argumentValues]
    exact failsOnly_bind hvalue fun _ _ => failsOnly_bind ih fun _ _ => failsOnly_ok _

theorem ofCheck_arguments {schema : Schema ρ} {head : FieldHead} {definition : FieldDefinition ρ} :
    FailsOnly OfCheck (arguments schema bindings head definition) := by
  unfold arguments
  refine failsOnly_bind ofCheck_argumentValues fun _ _ => ?_
  split
  · exact failsOnly_ok _
  · exact failsOnly_error trivial

theorem ofCheck_typenameNode {head : FieldHead} {selections : List Selection} :
    FailsOnly OfCheck (typenameNode head selections) := by
  unfold typenameNode
  split
  · exact failsOnly_error trivial
  · split
    · exact failsOnly_error trivial
    · exact failsOnly_ok _

theorem ofCheck_layOver {node : FieldNode} {nodes : List FieldNode} :
    FailsOnly OfCheck (layOver node nodes) := by
  induction nodes with
  | nil => exact failsOnly_ok [node]
  | cons existing rest ih =>
    rw [layOver]
    split
    · split
      · exact failsOnly_ok _
      · exact failsOnly_error trivial
    · exact failsOnly_map ih

theorem ofCheck_level {nodes : List FieldNode} : FailsOnly OfCheck (level nodes) :=
  failsOnly_foldlM fun _ _ => ofCheck_layOver

theorem ofCheck_overlay {nodes : List FieldNode} : FailsOnly OfCheck (overlay nodes) := by
  induction nodes using overlay.induct with
  | case1 nodes e he =>
    rw [overlay]
    split
    · next he => exact failsOnly_error (ofCheck_level _ he)
    · next hm =>
      rw [he] at hm
      cases hm
  | case2 nodes merged hm ih =>
    rw [overlay]
    split
    · next he =>
      rw [hm] at he
      cases he
    · next merged' hm' =>
      rw [hm, Except.ok.injEq] at hm'
      subst hm'
      refine failsOnly_mapM fun node _ => ?_
      exact failsOnly_bind (ih node.1 node.2) fun _ _ => failsOnly_ok _

end GraphGate.Plan
