import GraphGate.Proofs.Plan.Collection

/-! How the collection of fields goes on at a selection, once it is known whether the selection is
let in and what its name stands for. -/
namespace GraphGate

def Query.Selection.directives : Query.Selection → List Query.Directive
  | .field head _ => head.directives
  | .spread s => s.directives
  | .inline head _ => head.directives

namespace Plan

open Query

variable {ρ : Type} (scope : Scope ρ) {container : ObjectType ρ} {depth : Nat}
  {visited : List String}

theorem checkCondition_of_eq {condition : String} {position : Position}
    (h : condition = container.name) : checkCondition container condition position = .ok () :=
  if_pos h

theorem collectOne_field {head : FieldHead} {selections : List Selection} :
    collectOne scope container depth visited (.field head selections) =
      included scope.bindings head.directives >>= fun wanted =>
        if wanted then (fieldNode scope container depth visited head selections).map ([·])
        else .ok [] := by
  rw [collectOne]
  rfl

/-- The condition of an inline fragment, if it has one. -/
def checkInline (container : ObjectType ρ) (head : InlineHead) : Except PlanError Unit :=
  match head.condition with
  | some condition => checkCondition container condition head.position
  | none => .ok ()

theorem collectOne_inline {head : InlineHead} {selections : List Selection} :
    collectOne scope container depth visited (.inline head selections) =
      included scope.bindings head.directives >>= fun wanted =>
        if wanted then checkInline container head >>= fun _ =>
          collect scope container depth visited selections
        else .ok [] := by
  rw [collectOne, checkInline]
  cases head.condition with
  | none => rfl
  | some condition => rfl

/-- The name of a spread is looked for among the fragments that it lies in, and then among all. -/
theorem collectOne_spread {spread : Spread} :
    collectOne scope container depth visited (.spread spread) =
      included scope.bindings spread.directives >>= fun wanted =>
        if wanted then
          if visited.contains spread.name then .error (.fragmentCycle spread.name spread.position)
          else match scope.fragments.get? spread.name with
            | none => .error (.fragmentUnknown spread.name spread.position)
            | some fragment => checkCondition container fragment.condition spread.position >>=
                fun _ => collect scope container depth (spread.name :: visited) fragment.selections
        else .ok [] := by
  rw [collectOne]
  congr 1
  funext wanted
  cases wanted with
  | false => rfl
  | true =>
    rw [if_pos rfl, if_pos rfl]
    split
    · next hv =>
      rw [hv]
      rfl
    · next hv =>
      rw [hv]
      split
      · next hf =>
        rw [hf]
        rfl
      · next hf =>
        rw [hf]
        rfl

theorem collectOne_of_excluded (selection : Selection)
    (hi : included scope.bindings selection.directives = .ok false) :
    collectOne scope container depth visited selection = .ok [] := by
  cases selection with
  | field head selections =>
    rw [Selection.directives] at hi
    rw [collectOne_field, hi]
    rfl
  | spread spread =>
    rw [Selection.directives] at hi
    rw [collectOne_spread, hi]
    rfl
  | inline head selections =>
    rw [Selection.directives] at hi
    rw [collectOne_inline, hi]
    rfl

theorem collectOne_field_of_included {head : FieldHead} {selections : List Selection}
    (hi : included scope.bindings head.directives = .ok true) :
    collectOne scope container depth visited (.field head selections) =
      (fieldNode scope container depth visited head selections).map ([·]) := by
  rw [collectOne_field, hi]
  rfl

theorem collectOne_inline_of_eq {head : InlineHead} {selections : List Selection}
    (hi : included scope.bindings head.directives = .ok true)
    (hc : ∀ condition, head.condition = some condition → condition = container.name) :
    collectOne scope container depth visited (.inline head selections) =
      collect scope container depth visited selections := by
  have hcheck : checkInline container head = .ok () := by
    unfold checkInline
    cases h : head.condition with
    | none => rfl
    | some condition => exact checkCondition_of_eq (hc condition h)
  rw [collectOne_inline, hi, hcheck]
  rfl

theorem collectOne_spread_of_get? {spread : Spread} {fragment : Fragment}
    (hi : included scope.bindings spread.directives = .ok true)
    (hv : visited.contains spread.name = false)
    (hf : scope.fragments.get? spread.name = some fragment)
    (hc : fragment.condition = container.name) :
    collectOne scope container depth visited (.spread spread) =
      collect scope container depth (spread.name :: visited) fragment.selections := by
  rw [collectOne_spread, hi, hv, hf]
  simp only [checkCondition_of_eq hc]
  rfl

/-- Whether a fragment is blamed for spreading itself. -/
def blamesFragment : PlanError → Bool
  | .fragmentCycle .. => true
  | _ => false

def NoCycle (e : PlanError) : Prop := blamesFragment e = false

/-- What stands below a field of a type, if `below` tells what is selected on objects. -/
def childNodes (schema : Schema ρ) (head : FieldHead) (selections : List Selection) (type : TypeRef)
    (below : ObjectType ρ → Except PlanError (List FieldNode)) :
    Except PlanError (List FieldNode) :=
  match schema.find? type.innermost with
  | some (.object object) =>
    if selections.isEmpty then .error (.selectionMissing head.name type.text head.position)
    else below object
  | some _ =>
    if selections.isEmpty then .ok [] else .error (.selectionOnLeaf head.name head.position)
  | none => .error (.fieldTypeUnknown type.innermost head.position)

/-- Either an object is looked at, or what stands below the field has nothing to do with what is
selected on objects. -/
theorem childNodes_cases (schema : Schema ρ) (head : FieldHead) (selections : List Selection)
    (type : TypeRef) :
    (∃ object, ∀ below, childNodes schema head selections type below = below object) ∨
      (∀ below, childNodes schema head selections type below = .ok []) ∨
      ∃ e, (∀ below, childNodes schema head selections type below = .error e) ∧ NoCycle e := by
  unfold childNodes
  cases schema.find? type.innermost with
  | none => exact .inr (.inr ⟨_, fun _ => rfl, rfl⟩)
  | some inner =>
    cases selections.isEmpty with
    | true =>
      cases inner with
      | object object => exact .inr (.inr ⟨_, fun _ => rfl, rfl⟩)
      | _ => exact .inr (.inl fun _ => rfl)
    | false =>
      cases inner with
      | object object => exact .inl ⟨object, fun _ => rfl⟩
      | _ => exact .inr (.inr ⟨_, fun _ => rfl, rfl⟩)

theorem fieldNode_of_tooDeep {head : FieldHead} {selections : List Selection}
    (hd : scope.depthLimit < depth) :
    fieldNode scope container depth visited head selections = .error (.tooDeep head.position) := by
  rw [fieldNode, if_pos hd]

theorem fieldNode_typename {head : FieldHead} {selections : List Selection}
    (hd : depth ≤ scope.depthLimit) (hn : head.name = typename) :
    fieldNode scope container depth visited head selections = typenameNode head selections := by
  rw [fieldNode, if_neg (Nat.not_lt.mpr hd), if_pos hn]

theorem fieldNode_unknown {head : FieldHead} {selections : List Selection}
    (hd : depth ≤ scope.depthLimit) (hn : head.name ≠ typename)
    (hf : container.field? head.name = none) :
    fieldNode scope container depth visited head selections =
      .error (.fieldUnknown head.name container.name head.position) := by
  rw [fieldNode, if_neg (Nat.not_lt.mpr hd), if_neg hn, hf]

/-- A field that is defined: first what is below it, then its arguments. -/
theorem fieldNode_of_field? {head : FieldHead} {selections : List Selection}
    {definition : FieldDefinition ρ} (hd : depth ≤ scope.depthLimit) (hn : head.name ≠ typename)
    (hf : container.field? head.name = some definition) :
    fieldNode scope container depth visited head selections =
      childNodes scope.schema head selections definition.type (fun type =>
        collect scope type (depth + 1) visited selections >>= overlay) >>= fun children =>
      arguments scope.schema scope.bindings head definition >>= fun values =>
        .ok ⟨head.aliasName, head.name, values, children, head.position⟩ := by
  rw [fieldNode, if_neg (Nat.not_lt.mpr hd), if_neg hn, hf, childNodes]
  simp only
  cases scope.schema.find? definition.type.innermost with
  | none => rfl
  | some inner =>
    cases inner with
    | object type =>
      simp only
      cases selections.isEmpty with
      | true => rfl
      | false =>
        simp only [Bool.false_eq_true, if_false, bind_assoc]
        rfl
    | _ =>
      cases selections.isEmpty with
      | true => rfl
      | false => rfl

theorem childNodes_congr {schema : Schema ρ} {head head' : FieldHead}
    {selections selections' : List Selection} {type : TypeRef}
    {below below' : ObjectType ρ → Except PlanError (List FieldNode)}
    (hp : head'.position = head.position) (hn : head'.name = head.name)
    (he : selections'.isEmpty = selections.isEmpty) (hb : ∀ object, below' object = below object) :
    childNodes schema head' selections' type below' =
      childNodes schema head selections type below := by
  unfold childNodes
  rw [hp, hn, he, funext hb]

/-- A field with the same name, arguments that come to the same and the same below it. -/
theorem fieldNode_congr (scope' : Scope ρ) {visited' : List String} {head head' : FieldHead}
    {selections selections' : List Selection} (hs : scope'.schema = scope.schema)
    (hl : scope'.depthLimit = scope.depthLimit) (hp : head'.position = head.position)
    (ha : head'.aliasName = head.aliasName) (hn : head'.name = head.name)
    (ht : typenameNode head' selections' = typenameNode head selections)
    (he : selections'.isEmpty = selections.isEmpty)
    (hv : ∀ definition, arguments scope'.schema scope'.bindings head' definition =
      arguments scope.schema scope.bindings head definition)
    (hc : ∀ type, collect scope' type (depth + 1) visited' selections' =
      collect scope type (depth + 1) visited selections) :
    fieldNode scope' container depth visited' head' selections' =
      fieldNode scope container depth visited head selections := by
  by_cases hd : depth ≤ scope.depthLimit
  · have hd' : depth ≤ scope'.depthLimit := hl ▸ hd
    by_cases hname : head.name = typename
    · rw [fieldNode_typename scope' hd' (hn.trans hname), fieldNode_typename scope hd hname, ht]
    · have hname' : head'.name ≠ typename := hn ▸ hname
      cases hf : container.field? head.name with
      | none =>
        rw [fieldNode_unknown scope' hd' hname' (hn ▸ hf), fieldNode_unknown scope hd hname hf,
          hn, hp]
      | some definition =>
        rw [fieldNode_of_field? scope' hd' hname' (hn ▸ hf), fieldNode_of_field? scope hd hname hf,
          hv, hs, hp, ha, hn, childNodes_congr hp hn he fun type => by rw [hc]]
  · have hd' : scope.depthLimit < depth := Nat.not_le.mp hd
    rw [fieldNode_of_tooDeep scope' (hl ▸ hd'), fieldNode_of_tooDeep scope hd', hp]

/-- A field is the same wherever its selection is. -/
theorem fieldNode_of_collect (scope' : Scope ρ) {visited' : List String} {head : FieldHead}
    {selections selections' : List Selection} {node : FieldNode}
    (hs : scope'.schema = scope.schema) (hb : scope'.bindings = scope.bindings)
    (hd : depth ≤ scope'.depthLimit) (he : selections'.isEmpty = selections.isEmpty)
    (hc : ∀ type nodes, collect scope type (depth + 1) visited selections = .ok nodes →
      collect scope' type (depth + 1) visited' selections' = .ok nodes)
    (h : fieldNode scope container depth visited head selections = .ok node) :
    fieldNode scope' container depth visited' head selections' = .ok node := by
  obtain ⟨hd', ⟨hn, -⟩ | ⟨hn, definition, -, -, hf, -⟩⟩ := exists_of_fieldNode h
  · rw [fieldNode_typename scope hd' hn] at h
    rw [fieldNode_typename scope' hd hn]
    unfold typenameNode at h ⊢
    rw [he]
    exact h
  · rw [fieldNode_of_field? scope hd' hn hf] at h
    rw [fieldNode_of_field? scope' hd hn hf, hs, hb]
    obtain ⟨children, hchildren, h⟩ := exists_of_bind_ok h
    have hchildren' : childNodes scope.schema head selections' definition.type (fun type =>
        collect scope' type (depth + 1) visited' selections' >>= overlay) = .ok children := by
      have hbelow : ∀ below, childNodes scope.schema head selections' definition.type below =
          childNodes scope.schema head selections definition.type below :=
        fun _ => childNodes_congr rfl rfl he fun _ => rfl
      rw [hbelow]
      rcases childNodes_cases scope.schema head selections definition.type with
        ⟨object, heq⟩ | heq | ⟨e, heq, -⟩
      · rw [heq] at hchildren ⊢
        obtain ⟨nodes, hnodes, hm⟩ := exists_of_bind_ok hchildren
        rw [hc _ _ hnodes]
        exact hm
      · rw [heq] at hchildren ⊢
        exact hchildren
      · rw [heq] at hchildren
        cases hchildren
    rw [hchildren']
    exact h

end Plan

end GraphGate
