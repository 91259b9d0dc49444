import GraphGate.Plan.Arguments
import GraphGate.Plan.Overlay

/-! The fields that a selection set selects on an object type, fragments inlined. -/
namespace GraphGate.Plan

open Query

variable {ρ : Type}

/-- What every selection of an operation is checked against. -/
structure Scope (ρ : Type) where
  schema : Schema ρ
  fragments : Table Fragment
  bindings : Bindings
  depthLimit : Nat

/-- The condition under which a directive lets a selection in. -/
def admits? : String → Option Bool
  | "skip" => some false
  | "include" => some true
  | _ => none

/-- Whether a selection is let in. The first directive that keeps it out ends the matter; those
after it are not looked at. -/
def included (bindings : Bindings) : List Directive → Except PlanError Bool
  | [] => .ok true
  | directive :: rest =>
    match admits? directive.name with
    | none => .error (.directiveUnknown directive.name directive.position)
    | some wanted =>
      match directive.arguments.find? (·.name = "if") with
      | none => .error (.directiveCondition directive.name directive.position)
      | some argument =>
        match resolveArgument bindings argument.position argument.value with
        | .error e => .error e
        | .ok (some (.bool condition)) =>
          if condition = wanted then included bindings rest else .ok false
        | .ok _ => .error (.directiveCondition directive.name directive.position)

/-- The fragments that do not lie on the way to a selection. -/
def unvisited (fragments : Table Fragment) (visited : List String) : Nat :=
  (fragments.filter fun f => !visited.contains f.1).length

theorem unvisited_cons_eq (f : String × Fragment) (rest : Table Fragment) (visited : List String) :
    unvisited (f :: rest) visited =
      unvisited rest visited + if visited.contains f.1 then 0 else 1 := by
  unfold unvisited
  rw [List.filter_cons]
  cases visited.contains f.1 <;> rfl

theorem unvisited_cons_le (fragments : Table Fragment) (visited : List String) (name : String) :
    unvisited fragments (name :: visited) ≤ unvisited fragments visited := by
  induction fragments with
  | nil => exact Nat.le_refl _
  | cons f rest ih =>
    rw [unvisited_cons_eq, unvisited_cons_eq, List.contains_cons]
    have : (if (f.1 == name || visited.contains f.1) then 0 else 1) ≤
        if visited.contains f.1 then 0 else 1 := by
      cases f.1 == name <;> cases visited.contains f.1 <;> decide
    omega

theorem unvisited_cons_lt {fragments : Table Fragment} {visited : List String} {name : String}
    {fragment : Fragment} (hf : fragments.get? name = some fragment)
    (hv : visited.contains name = false) :
    unvisited fragments (name :: visited) < unvisited fragments visited := by
  induction fragments with
  | nil => exact nomatch hf
  | cons f rest ih =>
    rw [unvisited_cons_eq, unvisited_cons_eq, List.contains_cons]
    by_cases hn : f.1 = name
    · have := unvisited_cons_le rest visited name
      rw [hn, hv, beq_self_eq_true, Bool.true_or]
      simp only [Bool.false_eq_true, if_true, if_false]
      omega
    · have hlt := ih (by rwa [Table.get?, if_neg hn] at hf)
      rw [beq_false_of_ne hn, Bool.false_or]
      omega

/-- Fragments apply to objects of exactly the type they name. -/
def checkCondition (container : ObjectType ρ) (condition : String) (position : Position) :
    Except PlanError Unit :=
  if condition = container.name then .ok ()
  else .error (.fragmentType condition container.name position)

/-- The name of an object's type is selected without arguments and without anything below it. -/
def typenameNode (head : FieldHead) (selections : List Selection) : Except PlanError FieldNode :=
  if !head.arguments.isEmpty then
    .error (.strayArguments (head.arguments.map (·.name)) head.name head.position)
  else if !selections.isEmpty then .error (.selectionOnLeaf head.name head.position)
  else .ok ⟨head.aliasName, head.name, [], [], head.position⟩

mutual

/-- The fields that selections select, `depth` fields below the operation; `visited` are the
fragments that the selections lie in. -/
def collect (scope : Scope ρ) (container : ObjectType ρ) (depth : Nat) (visited : List String)
    (selections : List Selection) : Except PlanError (List FieldNode) :=
  match selections with
  | [] => .ok []
  | selection :: rest => do
    let first ← collectOne scope container depth visited selection
    let more ← collect scope container depth visited rest
    return first ++ more
termination_by (unvisited scope.fragments visited, sizeOf selections)

def collectOne (scope : Scope ρ) (container : ObjectType ρ) (depth : Nat) (visited : List String)
    (selection : Selection) : Except PlanError (List FieldNode) :=
  match selection with
  | .field head selections => do
    if ← included scope.bindings head.directives then
      let node ← fieldNode scope container depth visited head selections
      return [node]
    else return []
  | .spread spread => do
    if ← included scope.bindings spread.directives then
      match _hv : visited.contains spread.name with
      | true => throw (.fragmentCycle spread.name spread.position)
      | false =>
        match _hf : scope.fragments.get? spread.name with
        | none => throw (.fragmentUnknown spread.name spread.position)
        | some fragment =>
          checkCondition container fragment.condition spread.position
          collect scope container depth (spread.name :: visited) fragment.selections
    else return []
  | .inline head selections => do
    if ← included scope.bindings head.directives then
      match head.condition with
      | some condition => checkCondition container condition head.position
      | none => pure ()
      collect scope container depth visited selections
    else return []
termination_by (unvisited scope.fragments visited, sizeOf selection)
decreasing_by
  · refine Prod.Lex.right _ ?_
    cases head
    simp only [Selection.field.sizeOf_spec, FieldHead.mk.sizeOf_spec]
    omega
  · exact Prod.Lex.left _ _ (unvisited_cons_lt _hf _hv)
  · refine Prod.Lex.right _ ?_
    cases head
    simp only [Selection.inline.sizeOf_spec, InlineHead.mk.sizeOf_spec]
    omega

/-- A field with its subfields, which must be there exactly if its type is an object. -/
def fieldNode (scope : Scope ρ) (container : ObjectType ρ) (depth : Nat) (visited : List String)
    (head : FieldHead) (selections : List Selection) : Except PlanError FieldNode :=
  if scope.depthLimit < depth then .error (.tooDeep head.position)
  else if head.name = typename then typenameNode head selections
  else match container.field? head.name with
    | none => .error (.fieldUnknown head.name container.name head.position)
    | some definition => do
      let children ← match scope.schema.find? definition.type.innermost with
        | some (.object type) =>
          if selections.isEmpty then
            throw (.selectionMissing head.name definition.type.text head.position)
          else do
            let nodes ← collect scope type (depth + 1) visited selections
            overlay nodes
        | some _ =>
          if selections.isEmpty then pure [] else throw (.selectionOnLeaf head.name head.position)
        | none => throw (.fieldTypeUnknown definition.type.innermost head.position)
      let arguments ← arguments scope.schema scope.bindings head definition
      return ⟨head.aliasName, head.name, arguments, children, head.position⟩
termination_by (unvisited scope.fragments visited, sizeOf selections + 1)

end

/-- What a selection set selects, with fields of the same output name merged. -/
def selected (scope : Scope ρ) (container : ObjectType ρ) (depth : Nat) (visited : List String)
    (selections : List Selection) : Except PlanError (List FieldNode) := do
  let nodes ← collect scope container depth visited selections
  overlay nodes

end GraphGate.Plan
