import GraphGate.Plan.Selections
import GraphGate.Proofs.Success

/-! What a successful collection of fields says of each selection. -/
namespace GraphGate.Plan

open Query

variable {ρ : Type} {scope : Scope ρ} {container : ObjectType ρ} {depth : Nat}
  {visited : List String}

theorem sizeOf_lt_field {head : FieldHead} {selections : List Selection} :
    sizeOf selections + 1 < sizeOf (Selection.field head selections) := by
  cases head
  simp only [Selection.field.sizeOf_spec, FieldHead.mk.sizeOf_spec]
  omega

theorem sizeOf_lt_inline {head : InlineHead} {selections : List Selection} :
    sizeOf selections < sizeOf (Selection.inline head selections) := by
  cases head
  simp only [Selection.inline.sizeOf_spec, InlineHead.mk.sizeOf_spec]
  omega

theorem collect_nil : collect scope container depth visited [] = .ok [] := by
  rw [collect]

theorem exists_of_collect_cons {selection : Selection} {rest : List Selection}
    {nodes : List FieldNode}
    (h : collect scope container depth visited (selection :: rest) = .ok nodes) :
    ∃ first more, collectOne scope container depth visited selection = .ok first ∧
      collect scope container depth visited rest = .ok more ∧ nodes = first ++ more := by
  rw [collect] at h
  obtain ⟨first, hf, h⟩ := exists_of_bind_ok h
  obtain ⟨more, hm, h⟩ := exists_of_bind_ok h
  exact ⟨first, more, hf, hm, (Except.ok.inj h).symm⟩

/-- What a selection gives is among what all of them give. -/
theorem exists_of_collect_of_mem {selection : Selection} {selections : List Selection}
    {nodes : List FieldNode} (hm : selection ∈ selections)
    (h : collect scope container depth visited selections = .ok nodes) :
    ∃ found, collectOne scope container depth visited selection = .ok found ∧ found ⊆ nodes := by
  induction selections generalizing nodes with
  | nil => cases hm
  | cons first rest ih =>
    obtain ⟨found, more, hf, hmore, rfl⟩ := exists_of_collect_cons h
    rcases List.mem_cons.mp hm with rfl | hm
    · exact ⟨found, hf, List.subset_append_left _ _⟩
    · obtain ⟨found', hf', hsub⟩ := ih hm hmore
      exact ⟨found', hf', List.subset_append_of_subset_right _ hsub⟩

theorem exists_of_collectOne_field {head : FieldHead} {selections : List Selection}
    {nodes : List FieldNode}
    (h : collectOne scope container depth visited (.field head selections) = .ok nodes) :
    (included scope.bindings head.directives = .ok false ∧ nodes = []) ∨
      (included scope.bindings head.directives = .ok true ∧
        ∃ node, fieldNode scope container depth visited head selections = .ok node ∧
          nodes = [node]) := by
  rw [collectOne] at h
  obtain ⟨wanted, hw, h⟩ := exists_of_bind_ok h
  cases wanted with
  | false => exact .inl ⟨hw, (Except.ok.inj h).symm⟩
  | true =>
    obtain ⟨node, hn, h⟩ := exists_of_bind_ok h
    exact .inr ⟨hw, node, hn, (Except.ok.inj h).symm⟩

theorem eq_of_checkCondition {condition : String} {position : Position}
    (h : checkCondition container condition position = .ok ()) : condition = container.name := by
  unfold checkCondition at h
  split at h
  · assumption
  · cases h

theorem exists_of_collectOne_spread {spread : Spread} {nodes : List FieldNode}
    (h : collectOne scope container depth visited (.spread spread) = .ok nodes) :
    (included scope.bindings spread.directives = .ok false ∧ nodes = []) ∨
      (included scope.bindings spread.directives = .ok true ∧
        visited.contains spread.name = false ∧
        ∃ fragment, scope.fragments.get? spread.name = some fragment ∧
          fragment.condition = container.name ∧
          collect scope container depth (spread.name :: visited) fragment.selections =
            .ok nodes) := by
  rw [collectOne] at h
  obtain ⟨wanted, hw, h⟩ := exists_of_bind_ok h
  cases wanted with
  | false => exact .inl ⟨hw, (Except.ok.inj h).symm⟩
  | true =>
    simp only [if_true] at h
    split at h
    · cases h
    · next hv =>
      split at h
      · cases h
      · next fragment hf =>
        obtain ⟨_, hc, h⟩ := exists_of_bind_ok h
        exact .inr ⟨hw, hv, fragment, hf, eq_of_checkCondition hc, h⟩

theorem exists_of_collectOne_inline {head : InlineHead} {selections : List Selection}
    {nodes : List FieldNode}
    (h : collectOne scope container depth visited (.inline head selections) = .ok nodes) :
    (included scope.bindings head.directives = .ok false ∧ nodes = []) ∨
      (included scope.bindings head.directives = .ok true ∧
        (∀ condition, head.condition = some condition → condition = container.name) ∧
        collect scope container depth visited selections = .ok nodes) := by
  rw [collectOne] at h
  obtain ⟨wanted, hw, h⟩ := exists_of_bind_ok h
  cases wanted with
  | false => exact .inl ⟨hw, (Except.ok.inj h).symm⟩
  | true =>
    simp only [if_true] at h
    split at h
    · next condition hc =>
      obtain ⟨_, hc', h⟩ := exists_of_bind_ok h
      refine .inr ⟨hw, ?_, h⟩
      intro condition' he
      rw [hc, Option.some.injEq] at he
      rw [← he, eq_of_checkCondition hc']
    · next hc =>
      refine .inr ⟨hw, ?_, h⟩
      intro condition he
      rw [hc] at he
      cases he

/-- What stands below a field: the selection of an object, or nothing at a leaf. -/
inductive ChildrenOf (scope : Scope ρ) (depth : Nat) (visited : List String)
    (selections : List Selection) : Option (ObjectType ρ) → List FieldNode → Prop
  | object {type : ObjectType ρ} {nodes children : List FieldNode} (hs : selections ≠ [])
    (hc : collect scope type (depth + 1) visited selections = .ok nodes)
    (hm : overlay nodes = .ok children) :
    ChildrenOf scope depth visited selections (some type) children
  | leaf (hs : selections = []) : ChildrenOf scope depth visited selections none []

theorem eq_of_typenameNode {head : FieldHead} {selections : List Selection} {node : FieldNode}
    (h : typenameNode head selections = .ok node) :
    head.arguments = [] ∧ selections = [] ∧
      node = ⟨head.aliasName, head.name, [], [], head.position⟩ := by
  unfold typenameNode at h
  split at h
  · cases h
  · next ha =>
    split at h
    · cases h
    · next hs =>
      cases h
      exact ⟨by simpa using ha, by simpa using hs, rfl⟩

theorem exists_of_fieldNode {head : FieldHead} {selections : List Selection} {node : FieldNode}
    (h : fieldNode scope container depth visited head selections = .ok node) :
    depth ≤ scope.depthLimit ∧
      ((head.name = typename ∧ head.arguments = [] ∧ selections = [] ∧
          node = ⟨head.aliasName, head.name, [], [], head.position⟩) ∨
        (head.name ≠ typename ∧ ∃ definition values children,
          container.field? head.name = some definition ∧
          arguments scope.schema scope.bindings head definition = .ok values ∧
          ChildrenOf scope depth visited selections
            (scope.schema.object? definition.type.innermost) children ∧
          node = ⟨head.aliasName, head.name, values, children, head.position⟩)) := by
  rw [fieldNode] at h
  split at h
  · cases h
  · next hd =>
    refine ⟨by omega, ?_⟩
    split at h
    · next hn => exact .inl ⟨hn, eq_of_typenameNode h⟩
    · next hn =>
      split at h
      · cases h
      · next definition hf =>
        refine .inr ⟨hn, definition, ?_⟩
        unfold Schema.object?
        split at h
        · next type ht =>
          split at h
          · cases h
          · next hs =>
            obtain ⟨nodes, hnodes, h⟩ := exists_of_bind_ok h
            obtain ⟨children, hm, h⟩ := exists_of_bind_ok h
            obtain ⟨values, ha, h⟩ := exists_of_bind_ok h
            rw [ht]
            exact ⟨values, children, hf, ha, .object (by simpa using hs) hnodes hm,
              (Except.ok.inj h).symm⟩
        · next other ho ht =>
          split at h
          · next hs =>
            obtain ⟨children, hc, h⟩ := exists_of_bind_ok h
            obtain ⟨values, ha, h⟩ := exists_of_bind_ok h
            cases hc
            refine ⟨values, [], hf, ha, ?_, (Except.ok.inj h).symm⟩
            rw [ht]
            split
            · next he => exact absurd (Option.some.inj he) (ho _)
            · exact .leaf (by simpa using hs)
          · cases h
        · cases h

end GraphGate.Plan
