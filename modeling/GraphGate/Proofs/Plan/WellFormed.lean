import GraphGate.Plan.Build
import GraphGate.Proofs.Plan.Collection
import GraphGate.Proofs.Plan.Inhabitation
import GraphGate.Proofs.Plan.Merging

/-! Plans are well formed for the schema that they were checked against: every name is selected
where it is defined, once on its level, with arguments that belong to their types. -/
namespace GraphGate

open Query

variable {ρ : Type} {schema : Schema ρ}

/-- Arguments that a declaration allows: in its order, of its types, and none missing that it asks
for. -/
structure ArgumentsFit (schema : Schema ρ) (declared : List ArgumentDefinition)
    (arguments : Table Json) : Prop where
  inOrder : arguments.names.Sublist (declared.map (·.name))
  required : ∀ d ∈ declared, d.type.nullable = false → d.default = none →
    ∃ v, (d.name, v) ∈ arguments
  inhabit : ∀ name v, (name, v) ∈ arguments →
    ∃ d ∈ declared, d.name = name ∧ Inhabits schema d.type v

/-- A name with arguments selects a field of an object type, or the name of the type itself;
`below` is the object type that further selections apply to. -/
inductive Selects (schema : Schema ρ) (container : ObjectType ρ) (name : String)
    (arguments : Table Json) : Option (ObjectType ρ) → Prop
  | typename (hn : name = Plan.typename) (ha : arguments = []) :
    Selects schema container name arguments none
  | field {definition : FieldDefinition ρ} {below : Option (ObjectType ρ)}
    (hn : name ≠ Plan.typename) (hd : container.field? name = some definition)
    (ha : ArgumentsFit schema definition.arguments arguments)
    (hb : schema.object? definition.type.innermost = below) :
    Selects schema container name arguments below

/-- A node with everything below it fits an object type. -/
inductive FieldNode.WellFormed (schema : Schema ρ) : FieldNode → ObjectType ρ → Prop
  | leaf {node : FieldNode} {container : ObjectType ρ}
    (hs : Selects schema container node.name node.arguments none) (hc : node.children = []) :
    WellFormed schema node container
  | object {node : FieldNode} {container type : ObjectType ρ}
    (hs : Selects schema container node.name node.arguments (some type))
    (hn : (outputNames node.children).Nodup)
    (hc : ∀ child ∈ node.children, WellFormed schema child type) :
    WellFormed schema node container

/-- What a selection set selects on an object type. -/
structure WellSelected (schema : Schema ρ) (nodes : List FieldNode) (container : ObjectType ρ) :
    Prop where
  distinct : (outputNames nodes).Nodup
  wellFormed : ∀ node ∈ nodes, node.WellFormed schema container

/-- What is selected below a value is selected well on the object type inside its type. -/
def Fits (schema : Schema ρ) (nodes : List FieldNode) (type : TypeRef) : Prop :=
  ∀ object, schema.object? type.innermost = some object → WellSelected schema nodes object

theorem fits_of_wellFormed {node : FieldNode} {container : ObjectType ρ}
    {definition : FieldDefinition ρ} (hw : node.WellFormed schema container)
    (hn : node.name ≠ Plan.typename) (hd : container.field? node.name = some definition) :
    Fits schema node.children definition.type := by
  intro object ho
  cases hw with
  | leaf hs _ =>
    cases hs with
    | typename hn' => exact absurd hn' hn
    | field _ hd' _ hb =>
      rw [hd, Option.some.injEq] at hd'
      subst hd'
      rw [ho] at hb
      cases hb
  | object hs hdistinct hc =>
    cases hs with
    | field _ hd' _ hb =>
      rw [hd, Option.some.injEq] at hd'
      subst hd'
      rw [ho, Option.some.injEq] at hb
      subst hb
      exact ⟨hdistinct, hc⟩

theorem not_undefined {node : FieldNode} {container : ObjectType ρ}
    (hw : node.WellFormed schema container)
    (hn : node.name ≠ Plan.typename) : container.field? node.name ≠ none := by
  intro hd
  cases hw with
  | leaf hs _ =>
    cases hs with
    | typename hn' => exact hn hn'
    | field _ hd' _ _ =>
      rw [hd] at hd'
      cases hd'
  | object hs _ _ =>
    cases hs with
    | field _ hd' _ _ =>
      rw [hd] at hd'
      cases hd'

namespace Plan

variable {container : ObjectType ρ}

/-- A node in the middle of a merge: its children are well formed, but names may repeat there. -/
inductive Loose (schema : Schema ρ) (container : ObjectType ρ) (node : FieldNode) : Prop
  | leaf (hs : Selects schema container node.name node.arguments none) (hc : node.children = [])
  | object {type : ObjectType ρ}
    (hs : Selects schema container node.name node.arguments (some type))
    (hc : ∀ child ∈ node.children, child.WellFormed schema type)

theorem loose_of_wellFormed {node : FieldNode} (h : node.WellFormed schema container) :
    Loose schema container node := by
  cases h with
  | leaf hs hc => exact .leaf hs hc
  | object hs _ hc => exact .object hs hc

theorem below_unique {name : String} {a b : Table Json} {x y : Option (ObjectType ρ)}
    (ha : Selects schema container name a x) (hb : Selects schema container name b y) : x = y := by
  cases ha with
  | typename hn _ =>
    cases hb with
    | typename => rfl
    | field hn' _ _ _ => exact absurd hn hn'
  | field hn hd _ hx =>
    cases hb with
    | typename hn' _ => exact absurd hn' hn
    | field _ hd' _ hy =>
      rw [hd, Option.some.injEq] at hd'
      subst hd'
      exact hx.symm.trans hy

theorem loose_join {existing node : FieldNode} (he : Loose schema container existing)
    (hn : Loose schema container node) (hs : sameSelection existing node = true) :
    Loose schema container { existing with children := existing.children ++ node.children } := by
  have hname := name_eq_of_sameSelection hs
  cases he with
  | leaf he hc =>
    cases hn with
    | leaf _ hc' => exact .leaf he (by simp [hc, hc'])
    | object hn _ =>
      rw [← hname] at hn
      cases below_unique he hn
  | object he hc =>
    cases hn with
    | leaf hn _ =>
      rw [← hname] at hn
      cases below_unique he hn
    | object hn hc' =>
      rw [← hname] at hn
      cases below_unique he hn
      refine .object he fun child hm => ?_
      rcases List.mem_append.mp hm with hm | hm
      · exact hc child hm
      · exact hc' child hm

theorem loose_of_layOver {node : FieldNode} {nodes result : List FieldNode}
    (hn : Loose schema container node) (hs : ∀ n ∈ nodes, Loose schema container n)
    (h : layOver node nodes = .ok result) : ∀ n ∈ result, Loose schema container n := by
  intro n hm
  rcases exists_of_layOver h with ⟨-, rfl⟩ | ⟨before, existing, after, rfl, -, hsame, rfl⟩
  · rcases List.mem_append.mp hm with hm | hm
    · exact hs n hm
    · rw [List.mem_singleton.mp hm]
      exact hn
  · rcases List.mem_append.mp hm with hm | hm
    · exact hs n (by simp [hm])
    · rcases List.mem_cons.mp hm with rfl | hm
      · exact loose_join (hs existing (by simp)) hn hsame
      · exact hs n (by simp [hm])

theorem loose_of_level {nodes result : List FieldNode}
    (hn : ∀ n ∈ nodes, Loose schema container n) (h : level nodes = .ok result) :
    ∀ n ∈ result, Loose schema container n := by
  have hs : ∀ n ∈ ([] : List FieldNode), Loose schema container n := by simp
  exact invariant_of_foldlM (P := fun level => ∀ n ∈ level, Loose schema container n) hs
    (fun node hm _ _ hl h => loose_of_layOver (hn node hm) hl h) h

/-- Merging well-formed nodes gives well-formed nodes whose names differ on every level. -/
theorem wellSelected_of_overlay {nodes result : List FieldNode}
    (hn : ∀ n ∈ nodes, n.WellFormed schema container) (h : overlay nodes = .ok result) :
    WellSelected schema result container := by
  refine ⟨nodup_outputNames_of_overlay h, ?_⟩
  induction nodes using overlay.induct generalizing result container with
  | case1 nodes e he =>
    obtain ⟨merged, hm, -⟩ := exists_of_overlay h
    rw [he] at hm
    cases hm
  | case2 nodes merged hm ih =>
    obtain ⟨merged', hm', hf⟩ := exists_of_overlay h
    rw [hm, Except.ok.injEq] at hm'
    subst hm'
    have hl := loose_of_level (fun n hm => loose_of_wellFormed (hn n hm)) hm
    intro node' hnode'
    obtain ⟨node, hnode, children, hc, rfl⟩ := exists_of_forall₂_of_mem hf hnode'
    cases hl node hnode with
    | leaf hs hc' =>
      rw [hc'] at hc
      exact .leaf hs (eq_nil_of_overlay_nil hc)
    | object hs hc' =>
      exact .object hs (nodup_outputNames_of_overlay hc) (ih node hnode hc' hc)

theorem fit_given {d : ArgumentDefinition} {rest : List ArgumentDefinition} {v : Json}
    {values : Table Json} (hv : Inhabits schema d.type v) (hr : ArgumentsFit schema rest values) :
    ArgumentsFit schema (d :: rest) ((d.name, v) :: values) where
  inOrder := hr.inOrder.cons_cons d.name
  required := by
    intro d' hd' hn hdefault
    rcases List.mem_cons.mp hd' with rfl | hd'
    · exact ⟨v, by simp⟩
    · obtain ⟨v', hv'⟩ := hr.required d' hd' hn hdefault
      exact ⟨v', by simp [hv']⟩
  inhabit := by
    intro name v' hm
    rcases List.mem_cons.mp hm with he | hm
    · cases he
      exact ⟨d, by simp, rfl, hv⟩
    · obtain ⟨d', hd', hname, hv'⟩ := hr.inhabit name v' hm
      exact ⟨d', by simp [hd'], hname, hv'⟩

theorem fit_omitted {d : ArgumentDefinition} {rest : List ArgumentDefinition}
    {values : Table Json} (ho : d.type.nullable = true ∨ d.default ≠ none)
    (hr : ArgumentsFit schema rest values) : ArgumentsFit schema (d :: rest) values where
  inOrder := hr.inOrder.cons d.name
  required := by
    intro d' hd' hn hdefault
    rcases List.mem_cons.mp hd' with rfl | hd'
    · rcases ho with ho | ho
      · rw [hn] at ho
        cases ho
      · exact absurd hdefault ho
    · exact hr.required d' hd' hn hdefault
  inhabit := by
    intro name v hm
    obtain ⟨d', hd', hname, hv⟩ := hr.inhabit name v hm
    exact ⟨d', by simp [hd'], hname, hv⟩

/-- What is written for an argument, with the variables replaced. -/
def writtenValue (bindings : Bindings) (supplied : Table Argument) (name : String) :
    Except PlanError (Option Constant) :=
  match supplied.get? name with
  | some argument => resolveArgument bindings argument.position argument.value
  | none => .ok none

/-- What is written for an argument at its type; an argument that must be there is. -/
def typedValue (schema : Schema ρ) (position : Position) (field : String)
    (definition : ArgumentDefinition) : Option Constant → Except PlanError (Option Json)
  | some value =>
    match Coercion.coerce schema value definition.type with
    | .ok coerced => .ok (some coerced)
    | .error mismatch => .error (.argumentType definition.name field mismatch position)
  | none =>
    if !definition.type.nullable && definition.default.isNone then
      .error (.argumentMissing definition.name field position)
    else .ok none

theorem argumentValue_eq {bindings : Bindings} {position : Position} {field : String}
    {supplied : Table Argument} {definition : ArgumentDefinition} :
    argumentValue schema bindings position field supplied definition =
      writtenValue bindings supplied definition.name >>=
        typedValue schema position field definition := by
  rw [argumentValue, writtenValue]
  cases supplied.get? definition.name with
  | none => rfl
  | some argument => rfl

/-- An argument has a value that was coerced to its type, or may be left out. -/
theorem exists_of_argumentValue {bindings : Bindings} {position : Position} {field : String}
    {supplied : Table Argument} {d : ArgumentDefinition} {result : Option Json}
    (h : argumentValue schema bindings position field supplied d = .ok result) :
    (∃ value v, result = some v ∧ Coercion.coerce schema value d.type = .ok v) ∨
      (result = none ∧ (d.type.nullable = true ∨ d.default ≠ none)) := by
  rw [argumentValue_eq] at h
  obtain ⟨value, -, hv⟩ := exists_of_bind_ok h
  cases value with
  | none =>
    rw [typedValue] at hv
    split at hv
    · cases hv
    · next hr =>
      cases hv
      refine .inr ⟨rfl, ?_⟩
      cases hn : d.type.nullable with
      | true => exact .inl rfl
      | false =>
        refine .inr fun hd => hr ?_
        simp [hn, hd]
  | some value =>
    rw [typedValue] at hv
    split at hv
    · next coerced hc =>
      cases hv
      exact .inl ⟨value, coerced, rfl, hc⟩
    · cases hv

theorem fit_of_argumentValues {bindings : Bindings} {position : Position} {field : String}
    {supplied : Table Argument} {definitions : List ArgumentDefinition} {values : Table Json}
    (h : argumentValues schema bindings position field supplied definitions = .ok values) :
    ArgumentsFit schema definitions values := by
  induction definitions generalizing values with
  | nil =>
    cases h
    exact ⟨List.Sublist.slnil, by simp, by simp⟩
  | cons d rest ih =>
    rw [argumentValues] at h
    obtain ⟨value, hv, h⟩ := exists_of_bind_ok h
    obtain ⟨more, hm, h⟩ := exists_of_bind_ok h
    rcases exists_of_argumentValue hv with ⟨constant, v, rfl, hc⟩ | ⟨rfl, ho⟩
    · cases h
      exact fit_given (Coercion.sound_coerce constant _ _ hc) (ih hm)
    · cases h
      exact fit_omitted ho (ih hm)

theorem fit_of_arguments {bindings : Bindings} {head : FieldHead} {definition : FieldDefinition ρ}
    {values : Table Json} (h : arguments schema bindings head definition = .ok values) :
    ArgumentsFit schema definition.arguments values := by
  obtain ⟨values', hv, h⟩ := exists_of_bind_ok h
  split at h
  · cases h
    exact fit_of_argumentValues hv
  · cases h

variable {scope : Scope ρ}

mutual

/-- Everything that is collected on an object type fits it. -/
theorem wellFormed_of_collect {container : ObjectType ρ} {depth : Nat} {visited : List String}
    {selections : List Selection} {nodes : List FieldNode}
    (h : collect scope container depth visited selections = .ok nodes) :
    ∀ node ∈ nodes, node.WellFormed scope.schema container := by
  match selections with
  | [] =>
    rw [collect_nil] at h
    cases h
    simp
  | selection :: rest =>
    obtain ⟨first, more, hf, hm, rfl⟩ := exists_of_collect_cons h
    intro node hn
    rcases List.mem_append.mp hn with hn | hn
    · exact wellFormed_of_collectOne hf node hn
    · exact wellFormed_of_collect hm node hn
termination_by (unvisited scope.fragments visited, sizeOf selections)

theorem wellFormed_of_collectOne {container : ObjectType ρ} {depth : Nat} {visited : List String}
    {selection : Selection} {nodes : List FieldNode}
    (h : collectOne scope container depth visited selection = .ok nodes) :
    ∀ node ∈ nodes, node.WellFormed scope.schema container := by
  match selection with
  | .field head selections =>
    rcases exists_of_collectOne_field h with ⟨-, rfl⟩ | ⟨-, node, hn, rfl⟩
    · simp
    · intro node' hm
      rw [List.mem_singleton.mp hm]
      exact wellFormed_of_fieldNode hn
  | .spread spread =>
    rcases exists_of_collectOne_spread h with ⟨-, rfl⟩ | ⟨-, hv, fragment, hf, -, hc⟩
    · simp
    · exact wellFormed_of_collect hc
  | .inline head selections =>
    rcases exists_of_collectOne_inline h with ⟨-, rfl⟩ | ⟨-, -, hc⟩
    · simp
    · exact wellFormed_of_collect hc
termination_by (unvisited scope.fragments visited, sizeOf selection)
decreasing_by
  · exact Prod.Lex.right _ sizeOf_lt_field
  · exact Prod.Lex.left _ _ (unvisited_cons_lt hf hv)
  · exact Prod.Lex.right _ sizeOf_lt_inline

theorem wellFormed_of_fieldNode {container : ObjectType ρ} {depth : Nat} {visited : List String}
    {head : FieldHead} {selections : List Selection} {node : FieldNode}
    (h : fieldNode scope container depth visited head selections = .ok node) :
    node.WellFormed scope.schema container := by
  rcases (exists_of_fieldNode h).2 with ⟨hn, -, -, rfl⟩ |
    ⟨hn, definition, values, children, hd, ha, hc, rfl⟩
  · exact .leaf (.typename hn rfl) rfl
  · have hs : Selects scope.schema container head.name values _ :=
      .field hn hd (fit_of_arguments ha) rfl
    generalize scope.schema.object? definition.type.innermost = below at hc hs
    cases hc with
    | leaf => exact .leaf hs rfl
    | object _ hnodes hm =>
      have hw := wellSelected_of_overlay (wellFormed_of_collect hnodes) hm
      exact .object hs hw.distinct hw.wellFormed
termination_by (unvisited scope.fragments visited, sizeOf selections + 1)

end

theorem wellSelected_of_selected {container : ObjectType ρ} {depth : Nat} {visited : List String}
    {selections : List Selection} {nodes : List FieldNode}
    (h : selected scope container depth visited selections = .ok nodes) :
    WellSelected scope.schema nodes container := by
  obtain ⟨collected, hc, hm⟩ := exists_of_bind_ok h
  exact wellSelected_of_overlay (wellFormed_of_collect hc) hm

/-- The root type that a schema has for a kind of operation. -/
def root? (schema : Schema ρ) : OperationType → Option String
  | .query => some schema.query
  | .mutation => schema.mutation
  | .subscription => none

theorem root?_of_rootName {operation : Operation} {root : String}
    (h : rootName schema operation = .ok root) : root? schema operation.type = some root := by
  unfold rootName at h
  cases ht : operation.type with
  | query =>
    rw [ht] at h
    cases h
    rfl
  | mutation =>
    rw [ht] at h
    simp only at h
    split at h
    · next name hm =>
      cases h
      exact hm
    · cases h
  | subscription =>
    rw [ht] at h
    cases h

theorem exists_of_ofOperation {limit : Nat} {fragments : Table Fragment} {name : Option String}
    {operation : Operation} {supplied : Table Json} {plan : Plan}
    (h : ofOperation schema limit fragments name operation supplied = .ok plan) :
    plan.name = name ∧ plan.operation = operation.type ∧
      root? schema operation.type = some plan.root ∧
      ∃ type, schema.object? plan.root = some type ∧ WellSelected schema plan.fields type := by
  unfold ofOperation at h
  obtain ⟨root, hr, h⟩ := exists_of_bind_ok h
  simp only at h
  split at h
  · next type ht =>
    obtain ⟨container, hc, h⟩ := exists_of_bind_ok h
    cases hc
    obtain ⟨bindings, -, h⟩ := exists_of_bind_ok h
    obtain ⟨fields, hs, h⟩ := exists_of_bind_ok h
    cases h
    exact ⟨rfl, rfl, root?_of_rootName hr, type, ht, wellSelected_of_selected hs⟩
  · cases h

theorem exists_of_ofDocument {limit : Nat} {document : Document} {name : Option String}
    {supplied : Table Json} {plan : Plan}
    (h : ofDocument schema limit document name supplied = .ok plan) :
    ∃ operation, chosen document.operations name = .ok (plan.name, operation) ∧
      ofOperation schema limit document.fragments plan.name operation supplied = .ok plan := by
  obtain ⟨⟨name', operation⟩, hc, h⟩ := exists_of_bind_ok h
  have hn := (exists_of_ofOperation h).1
  subst hn
  exact ⟨operation, hc, h⟩

theorem exists_wellSelected_of_ofDocument {limit : Nat} {document : Document}
    {name : Option String} {supplied : Table Json} {plan : Plan}
    (h : ofDocument schema limit document name supplied = .ok plan) :
    ∃ type, schema.object? plan.root = some type ∧ WellSelected schema plan.fields type := by
  obtain ⟨operation, -, h⟩ := exists_of_ofDocument h
  exact (exists_of_ofOperation h).2.2.2

/-- A plan is made of an operation of the document, starts at the schema's root type for its kind,
and selects nothing there that does not fit. -/
theorem ofDocument_sound {limit : Nat} {document : Document} {name : Option String}
    {supplied : Table Json} {plan : Plan}
    (h : ofDocument schema limit document name supplied = .ok plan) :
    ∃ operation type, chosen document.operations name = .ok (plan.name, operation) ∧
      plan.operation = operation.type ∧ root? schema operation.type = some plan.root ∧
      schema.object? plan.root = some type ∧ WellSelected schema plan.fields type := by
  obtain ⟨operation, hc, h⟩ := exists_of_ofDocument h
  obtain ⟨-, ho, hr, type, ht, hw⟩ := exists_of_ofOperation h
  exact ⟨operation, type, hc, ho, hr, ht, hw⟩

end Plan

end GraphGate

/-! A schema in which users are looked up by their ids, and a query of it. -/
namespace GraphGate.Sample

open Query Plan

def user : ObjectType Unit :=
  ⟨"User", [⟨⟨"name", .named "String" false, []⟩, .property "name"⟩], none⟩

def query : ObjectType Unit :=
  ⟨"Query", [⟨⟨"user", .named "User" true, [⟨"id", .named "ID" false, none⟩]⟩, .callable ()⟩],
    none⟩

def schema : Schema Unit where
  types := [.scalar "ID", .scalar "String", .object query, .object user]
  query := "Query"
  mutation := none

/-- The query `{ user(id: 7) { name } }`. -/
def document : Document where
  operations := .single ⟨⟨1, 1⟩, .query, [], [.field
    ⟨⟨1, 3⟩, none, "user", [⟨"id", ⟨1, 12⟩, .number (.int 7)⟩], []⟩
    [.field ⟨⟨1, 17⟩, none, "name", [], []⟩ []]]⟩
  fragments := []

def plan : Plan where
  name := none
  operation := .query
  root := "Query"
  fields := [⟨none, "user", [("id", .str "7")], [⟨none, "name", [], [], ⟨1, 17⟩⟩], ⟨1, 3⟩⟩]

theorem ofDocument_document : ofDocument schema 64 document none [] = .ok plan := by cbv

theorem ofDocument_sound_document :
    ofDocument schema 64 document none [] = .ok plan ∧
      ∃ operation type, chosen document.operations none = .ok (plan.name, operation) ∧
        plan.operation = operation.type ∧ root? schema operation.type = some plan.root ∧
        schema.object? plan.root = some type ∧ WellSelected schema plan.fields type :=
  ⟨ofDocument_document, ofDocument_sound ofDocument_document⟩

end GraphGate.Sample
