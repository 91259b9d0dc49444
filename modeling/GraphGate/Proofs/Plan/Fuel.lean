import GraphGate.Proofs.Plan.Steps

/-! Collection with a number of nested calls that may not be exceeded, and nothing else that keeps
it from going on for ever. With enough of them it comes to an end, and to what collection gives. -/
namespace GraphGate.Plan

open Query

variable {ρ α β : Type}

/-- A computation that may run out of fuel. -/
abbrev Attempt (α : Type) := ExceptT PlanError Option α

namespace Attempt

def spent : Attempt α := ExceptT.mk none

def done (x : Except PlanError α) : Attempt α := ExceptT.mk (some x)

end Attempt

mutual

/-- The fields that selections select, as far as the fuel goes. -/
def collectWithin (scope : Scope ρ) : Nat → ObjectType ρ → Nat → List String → List Selection →
    Attempt (List FieldNode)
  | 0, _, _, _, _ => .spent
  | _ + 1, _, _, _, [] => .done (.ok [])
  | fuel + 1, container, depth, visited, selection :: rest => do
    let first ← collectOneWithin scope fuel container depth visited selection
    let more ← collectWithin scope fuel container depth visited rest
    return first ++ more

def collectOneWithin (scope : Scope ρ) : Nat → ObjectType ρ → Nat → List String → Selection →
    Attempt (List FieldNode)
  | 0, _, _, _, _ => .spent
  | fuel + 1, container, depth, visited, .field head selections => do
    if ← Attempt.done (included scope.bindings head.directives) then
      let node ← fieldNodeWithin scope fuel container depth visited head selections
      return [node]
    else return []
  | fuel + 1, container, depth, visited, .spread spread => do
    if ← Attempt.done (included scope.bindings spread.directives) then
      if visited.contains spread.name then throw (.fragmentCycle spread.name spread.position)
      else match scope.fragments.get? spread.name with
        | none => throw (.fragmentUnknown spread.name spread.position)
        | some fragment => do
          Attempt.done (checkCondition container fragment.condition spread.position)
          collectWithin scope fuel container depth (spread.name :: visited) fragment.selections
    else return []
  | fuel + 1, container, depth, visited, .inline head selections => do
    if ← Attempt.done (included scope.bindings head.directives) then
      match head.condition with
      | some condition => Attempt.done (checkCondition container condition head.position)
      | none => pure ()
      collectWithin scope fuel container depth visited selections
    else return []

def fieldNodeWithin (scope : Scope ρ) : Nat → ObjectType ρ → Nat → List String → FieldHead →
    List Selection → Attempt FieldNode
  | 0, _, _, _, _, _ => .spent
  | fuel + 1, container, depth, visited, head, selections =>
    if scope.depthLimit < depth then throw (.tooDeep head.position)
    else if head.name = typename then .done (typenameNode head selections)
    else match container.field? head.name with
      | none => throw (.fieldUnknown head.name container.name head.position)
      | some definition => do
        let children ← match scope.schema.find? definition.type.innermost with
          | some (.object type) =>
            if selections.isEmpty then
              throw (.selectionMissing head.name definition.type.text head.position)
            else do
              let nodes ← collectWithin scope fuel type (depth + 1) visited selections
              Attempt.done (overlay nodes)
          | some _ =>
            if selections.isEmpty then pure []
            else throw (.selectionOnLeaf head.name head.position)
          | none => throw (.fieldTypeUnknown definition.type.innermost head.position)
        let arguments ← Attempt.done (arguments scope.schema scope.bindings head definition)
        return ⟨head.aliasName, head.name, arguments, children, head.position⟩

end

/-- With enough fuel a computation comes to an end, and to this result. -/
def Settles (attempt : Nat → Attempt α) (x : Except PlanError α) : Prop :=
  ∃ n, ∀ fuel ≥ n, attempt fuel = .done x

theorem settles_done {x : Except PlanError α} : Settles (fun _ => .done x) x :=
  ⟨0, fun _ _ => rfl⟩

theorem settles_bind {attempt : Nat → Attempt α} {next : Nat → α → Attempt β}
    {x : Except PlanError α} {f : α → Except PlanError β} (hx : Settles attempt x)
    (hf : ∀ a, x = .ok a → Settles (fun fuel => next fuel a) (f a)) :
    Settles (fun fuel => attempt fuel >>= next fuel) (x >>= f) := by
  obtain ⟨n, hn⟩ := hx
  cases x with
  | error e =>
    refine ⟨n, fun fuel hfuel => ?_⟩
    simp only [hn fuel hfuel]
    rfl
  | ok a =>
    obtain ⟨m, hm⟩ := hf a rfl
    refine ⟨max n m, fun fuel hfuel => ?_⟩
    simp only [hn fuel (by omega)]
    exact hm fuel (by omega)

/-- A call costs one unit. -/
theorem settles_succ {attempt attempt' : Nat → Attempt α} {x : Except PlanError α}
    (h : Settles attempt x) (hs : ∀ fuel, attempt' (fuel + 1) = attempt fuel) :
    Settles attempt' x := by
  obtain ⟨n, hn⟩ := h
  refine ⟨n + 1, fun fuel hfuel => ?_⟩
  obtain ⟨fuel, rfl⟩ := Nat.exists_eq_add_of_le' (show 1 ≤ fuel by omega)
  rw [hs, hn fuel (by omega)]

variable {scope : Scope ρ}

theorem settles_childNodes {schema : Schema ρ} {head : FieldHead} {selections : List Selection}
    {type : TypeRef} {attempt : Nat → ObjectType ρ → Attempt (List FieldNode)}
    {below : ObjectType ρ → Except PlanError (List FieldNode)}
    (hb : ∀ object, Settles (fun fuel => attempt fuel object) (below object)) :
    Settles (fun fuel => match schema.find? type.innermost with
      | some (.object object) =>
        if selections.isEmpty then throw (.selectionMissing head.name type.text head.position)
        else attempt fuel object
      | some _ =>
        if selections.isEmpty then pure [] else throw (.selectionOnLeaf head.name head.position)
      | none => throw (.fieldTypeUnknown type.innermost head.position))
      (childNodes schema head selections type below) := by
  unfold childNodes
  cases schema.find? type.innermost with
  | none => exact settles_done
  | some inner =>
    cases selections.isEmpty with
    | true => cases inner <;> exact settles_done
    | false =>
      cases inner with
      | object object => exact hb object
      | _ => exact settles_done

mutual

theorem settles_collect (container : ObjectType ρ) (depth : Nat) (visited : List String)
    (selections : List Selection) :
    Settles (fun fuel => collectWithin scope fuel container depth visited selections)
      (collect scope container depth visited selections) := by
  match selections with
  | [] =>
    rw [collect_nil]
    exact settles_succ settles_done fun _ => rfl
  | selection :: rest =>
    rw [collect]
    have hfirst := settles_collectOne container depth visited selection
    have hmore := settles_collect container depth visited rest
    exact settles_succ (settles_bind hfirst fun _ _ => settles_bind hmore fun _ _ => settles_done)
      fun _ => rfl
termination_by (unvisited scope.fragments visited, sizeOf selections)

theorem settles_collectOne (container : ObjectType ρ) (depth : Nat) (visited : List String)
    (selection : Selection) :
    Settles (fun fuel => collectOneWithin scope fuel container depth visited selection)
      (collectOne scope container depth visited selection) := by
  match selection with
  | .field head selections =>
    have hn := settles_fieldNode container depth visited head selections
    rw [collectOne_field]
    refine settles_succ (settles_bind settles_done fun wanted _ => ?_) fun _ => rfl
    cases wanted with
    | false => exact settles_done
    | true => exact settles_bind hn fun _ _ => settles_done
  | .spread spread =>
    have hn : ∀ fragment, visited.contains spread.name = false →
        scope.fragments.get? spread.name = some fragment →
        Settles (fun fuel => collectWithin scope fuel container depth (spread.name :: visited)
            fragment.selections)
          (collect scope container depth (spread.name :: visited) fragment.selections) := by
      intro fragment hv hf
      have hlt := unvisited_cons_lt hf hv
      exact settles_collect container depth (spread.name :: visited) fragment.selections
    rw [collectOne_spread]
    refine settles_succ (settles_bind settles_done fun wanted _ => ?_) fun _ => rfl
    cases wanted with
    | false => exact settles_done
    | true =>
      cases hv : visited.contains spread.name with
      | true => exact settles_done
      | false =>
        cases hf : scope.fragments.get? spread.name with
        | none => exact settles_done
        | some fragment => exact settles_bind settles_done fun _ _ => hn fragment hv hf
  | .inline head selections =>
    have hn := settles_collect container depth visited selections
    rw [collectOne_inline, checkInline]
    refine settles_succ (settles_bind settles_done fun wanted _ => ?_) fun _ => rfl
    cases wanted with
    | false => exact settles_done
    | true =>
      cases head.condition with
      | none => exact hn
      | some condition => exact settles_bind settles_done fun _ _ => hn
termination_by (unvisited scope.fragments visited, sizeOf selection)
decreasing_by
  · exact Prod.Lex.right _ sizeOf_lt_field
  · exact Prod.Lex.left _ _ hlt
  · exact Prod.Lex.right _ sizeOf_lt_inline

theorem settles_fieldNode (container : ObjectType ρ) (depth : Nat) (visited : List String)
    (head : FieldHead) (selections : List Selection) :
    Settles (fun fuel => fieldNodeWithin scope fuel container depth visited head selections)
      (fieldNode scope container depth visited head selections) := by
  have hc := fun object => settles_collect object (depth + 1) visited selections
  by_cases hd : scope.depthLimit < depth
  · rw [fieldNode_of_tooDeep scope hd]
    exact settles_succ settles_done fun _ => if_pos hd
  · have hd' := Nat.not_lt.mp hd
    by_cases hn : head.name = typename
    · rw [fieldNode_typename scope hd' hn]
      exact settles_succ settles_done fun _ => (if_neg hd).trans (if_pos hn)
    · cases hf : container.field? head.name with
      | none =>
        rw [fieldNode_unknown scope hd' hn hf]
        refine settles_succ settles_done fun fuel => ?_
        rw [fieldNodeWithin, if_neg hd, if_neg hn, hf]
        rfl
      | some definition =>
        rw [fieldNode_of_field? scope hd' hn hf]
        refine settles_succ (settles_bind (settles_childNodes fun object =>
          settles_bind (hc object) fun nodes _ => settles_done) fun children _ => settles_bind
            settles_done fun values _ => settles_done) fun fuel => ?_
        rw [fieldNodeWithin, if_neg hd, if_neg hn, hf]
        simp only
        cases scope.schema.find? definition.type.innermost with
        | none => rfl
        | some inner =>
          cases selections.isEmpty with
          | true => cases inner <;> rfl
          | false =>
            cases inner with
            | object object =>
              simp only [Bool.false_eq_true, if_false, bind_assoc]
              rfl
            | _ => rfl
termination_by (unvisited scope.fragments visited, sizeOf selections + 1)

end

end GraphGate.Plan
