import GraphGate.Proofs.Plan.Relevance
import GraphGate.Proofs.Query.Grounding

/-! A variable that has a value may give way to it: a document comes to the same with the values
written where the variables are used. -/
namespace GraphGate.Plan

open Query

variable {ρ : Type} {schema : Schema ρ} {values : Table Constant} {bindings bindings' : Bindings}

/-- Variables with a value are bound to it; the others are the same before and after. -/
structure Grounds (values : Table Constant) (bindings bindings' : Bindings) : Prop where
  given : ∀ name v, values.get? name = some v → bindings.get? name = some (some v)
  other : ∀ name, values.get? name = none → bindings'.get? name = bindings.get? name

theorem resolveArgument_of_substitute {position : Position} {v : Literal}
    (h : ∀ name, v ≠ .var name) :
    resolveArgument bindings position v =
      (v.substitute (variableConstant bindings position)).map some := by
  cases v with
  | var name => exact absurd rfl (h name)
  | _ => rfl

theorem resolveArgument_toLiteral {position : Position} (v : Constant) :
    resolveArgument bindings position v.toLiteral = .ok (some v) := by
  have hvar : ∀ name, v.toLiteral ≠ .var name := by
    intro name h
    cases v with
    | var name => exact nomatch name
    | _ => cases h
  rw [resolveArgument_of_substitute hvar, Constant.substitute_toLiteral]
  rfl

/-- Inside of a value, a variable and what stands for it come to the same. -/
theorem substitute_ofVariable (hg : Grounds values bindings bindings') (position : Position)
    (name : String) :
    (Literal.ofVariable values name).substitute (variableConstant bindings' position) =
      variableConstant bindings position name := by
  unfold Literal.ofVariable
  cases hv : values.get? name with
  | some v =>
    have hb : variableConstant bindings position name = .ok v := by
      rw [variableConstant, hg.given name v hv]
      rfl
    rw [hb]
    exact Constant.substitute_toLiteral v
  | none =>
    have hb : variableConstant bindings' position name =
        variableConstant bindings position name := by
      rw [variableConstant, variableConstant, hg.other name hv]
    exact hb

/-- As a whole they do, too, whether the variable stands for null or for something else. -/
theorem resolveArgument_grounded (hg : Grounds values bindings bindings') (position : Position)
    (v : Literal) :
    resolveArgument bindings' position (v.grounded values) =
      resolveArgument bindings position v := by
  by_cases hvar : ∃ name, v = .var name
  · obtain ⟨name, rfl⟩ := hvar
    rw [Literal.grounded, Value.bind, Literal.ofVariable]
    cases hv : values.get? name with
    | some c =>
      have hb : resolveArgument bindings position (.var name) = .ok (some c) := by
        rw [resolveArgument, hg.given name c hv]
      rw [hb]
      exact resolveArgument_toLiteral c
    | none =>
      simp only [resolveArgument, hg.other name hv]
  · have hvar' : ∀ name, v.grounded values ≠ .var name := by
      intro name h
      cases v with
      | var name => exact hvar ⟨name, rfl⟩
      | _ => cases h
    have hsub : (v.grounded values).substitute (variableConstant bindings' position) =
        v.substitute (variableConstant bindings position) := by
      rw [Literal.grounded, Value.substitute_bind]
      congr 1
      funext name
      exact substitute_ofVariable hg position name
    rw [resolveArgument_of_substitute hvar', hsub,
      resolveArgument_of_substitute fun name h => hvar ⟨name, h⟩]

/-- A condition lets a selection in with the value as it does with the variable. -/
theorem included_grounded (hg : Grounds values bindings bindings') (directives : List Directive) :
    included bindings' (directives.map (·.grounded values)) = included bindings directives := by
  induction directives with
  | nil => rfl
  | cons directive rest ih =>
    have hfind : (directive.grounded values).arguments.find? (·.name = "if") =
        (directive.arguments.find? (·.name = "if")).map (·.grounded values) := List.find?_map ..
    rw [List.map_cons, included, included, ih, hfind]
    cases directive.arguments.find? (·.name = "if") with
    | none => rfl
    | some argument =>
      have hr := resolveArgument_grounded hg argument.position argument.value
      simp only [Option.map_some, Argument.grounded, hr]
      rfl

theorem suppliedTable_grounded (written : List Argument) :
    suppliedTable (written.map (·.grounded values)) =
      Table.mapValues (fun _ argument => argument.grounded values) (suppliedTable written) := by
  have hpairs : ((written.map (·.grounded values)).filter (·.name != typename)).map
      (fun a => (a.name, a)) = Table.mapValues (fun _ argument => argument.grounded values)
        ((written.filter (·.name != typename)).map fun a => (a.name, a)) := by
    rw [List.filter_map, List.map_map, Table.mapValues, List.map_map]
    rfl
  rw [suppliedTable, hpairs, Table.ofPairs_mapValues, suppliedTable]

theorem argumentValue_grounded (hg : Grounds values bindings bindings') {position : Position}
    {field : String} {supplied : Table Argument} (d : ArgumentDefinition) :
    argumentValue schema bindings' position field
        (Table.mapValues (fun _ argument => argument.grounded values) supplied) d =
      argumentValue schema bindings position field supplied d := by
  have hw : writtenValue bindings' (Table.mapValues (fun _ a => a.grounded values) supplied)
      d.name = writtenValue bindings supplied d.name := by
    rw [writtenValue, writtenValue, Table.get?_mapValues]
    cases supplied.get? d.name with
    | none => rfl
    | some argument => exact resolveArgument_grounded hg argument.position argument.value
  rw [argumentValue_eq, argumentValue_eq, hw]

theorem argumentValues_grounded (hg : Grounds values bindings bindings') {position : Position}
    {field : String} {supplied : Table Argument} (declared : List ArgumentDefinition) :
    argumentValues schema bindings' position field
        (Table.mapValues (fun _ argument => argument.grounded values) supplied) declared =
      argumentValues schema bindings position field supplied declared := by
  induction declared with
  | nil => rfl
  | cons d rest ih => rw [argumentValues, argumentValues, argumentValue_grounded hg, ih]

theorem arguments_grounded (hg : Grounds values bindings bindings') {head : FieldHead}
    (definition : FieldDefinition ρ) :
    arguments schema bindings' (head.grounded values) definition =
      arguments schema bindings head definition := by
  have hs : suppliedTable (head.grounded values).arguments =
      Table.mapValues (fun _ a => a.grounded values) (suppliedTable head.arguments) :=
    suppliedTable_grounded head.arguments
  have hn : Table.names (Table.mapValues (fun _ (a : Argument) => a.grounded values)
      (suppliedTable head.arguments)) = (suppliedTable head.arguments).names := by
    rw [Table.names, Table.names, Table.mapValues, List.map_map]
    rfl
  simp only [arguments, hs, hn, argumentValues_grounded hg]
  rfl

theorem typenameNode_grounded {head : FieldHead} {selections : List Selection} :
    typenameNode (head.grounded values) (groundedAll values selections) =
      typenameNode head selections := by
  have hnames : (head.grounded values).arguments.map (·.name) = head.arguments.map (·.name) := by
    rw [FieldHead.grounded, List.map_map]
    rfl
  have hempty : (head.grounded values).arguments.isEmpty = head.arguments.isEmpty :=
    List.isEmpty_map
  rw [typenameNode, typenameNode, isEmpty_groundedAll, hnames, hempty]
  rfl

/-- The scope of a grounded document. -/
def Scope.grounded (scope : Scope ρ) (values : Table Constant) (bindings : Bindings) : Scope ρ :=
  { scope with
    fragments := Table.mapValues (fun _ fragment => fragment.grounded values) scope.fragments
    bindings }

variable {scope : Scope ρ}

mutual

/-- Grounded selections come to the same fields, in the same order. -/
theorem collect_grounded (hg : Grounds values scope.bindings bindings') {container : ObjectType ρ}
    {depth : Nat} {visited : List String} {selections : List Selection} :
    collect (scope.grounded values bindings') container depth visited
        (groundedAll values selections) =
      collect scope container depth visited selections := by
  match selections with
  | [] => rw [groundedAll, collect_nil, collect_nil]
  | selection :: rest =>
    rw [groundedAll, collect, collect, collectOne_grounded hg, collect_grounded hg]
termination_by (unvisited scope.fragments visited, sizeOf selections)

theorem collectOne_grounded (hg : Grounds values scope.bindings bindings')
    {container : ObjectType ρ} {depth : Nat} {visited : List String} {selection : Selection} :
    collectOne (scope.grounded values bindings') container depth visited
        (selection.grounded values) =
      collectOne scope container depth visited selection := by
  have hb : (scope.grounded values bindings').bindings = bindings' := rfl
  match selection with
  | .field head selections =>
    have hi : included bindings' (head.grounded values).directives =
        included scope.bindings head.directives := included_grounded hg head.directives
    have hnode : fieldNode (scope.grounded values bindings') container depth visited
        (head.grounded values) (groundedAll values selections) =
        fieldNode scope container depth visited head selections :=
      fieldNode_congr scope (scope.grounded values bindings') rfl rfl rfl rfl rfl
        typenameNode_grounded isEmpty_groundedAll (fun d => arguments_grounded hg d)
        fun type => collect_grounded hg
    rw [Selection.grounded, collectOne_field, collectOne_field, hb, hi, hnode]
  | .inline head selections =>
    have hi : included bindings' (head.grounded values).directives =
        included scope.bindings head.directives := included_grounded hg head.directives
    rw [Selection.grounded, collectOne_inline, collectOne_inline, hb, hi, collect_grounded hg]
    rfl
  | .spread spread =>
    have hi : included bindings' (spread.grounded values).directives =
        included scope.bindings spread.directives := included_grounded hg spread.directives
    have hget : (scope.grounded values bindings').fragments.get? spread.name =
        (scope.fragments.get? spread.name).map (·.grounded values) := by
      rw [Scope.grounded, Table.get?_mapValues]
    have hn : (spread.grounded values).name = spread.name := rfl
    rw [Selection.grounded, collectOne_spread, collectOne_spread, hb, hi, hn, hget]
    cases hv : visited.contains spread.name with
    | true => rfl
    | false =>
      cases hs : scope.fragments.get? spread.name with
      | none => rfl
      | some fragment =>
        have hc : collect (scope.grounded values bindings') container depth
            (spread.name :: visited) (fragment.grounded values).selections =
            collect scope container depth (spread.name :: visited) fragment.selections :=
          collect_grounded hg
        simp only [Option.map_some, hc]
        rfl
termination_by (unvisited scope.fragments visited, sizeOf selection)
decreasing_by
  · exact Prod.Lex.right _ (Nat.lt_of_succ_lt sizeOf_lt_field)
  · exact Prod.Lex.right _ sizeOf_lt_inline
  · exact Prod.Lex.left _ _ (unvisited_cons_lt hs hv)

end

section Operation

variable {supplied : Table Json}

/-- What a declared variable stands for: what the request supplies, or else its default. -/
def declaredValue (supplied : Table Json) (d : VariableDefinition) : Option Constant :=
  ((supplied.get? d.name).map Constant.ofJson).or d.default

/-- The declared variables that stand for something. -/
def declaredValues (supplied : Table Json) (declarations : List VariableDefinition) :
    Table Constant :=
  declarations.filterMap fun d => (declaredValue supplied d).map fun v => (d.name, v)

/-- The value that passes its check is kept as it was supplied. -/
theorem eq_of_variableValue {d : VariableDefinition} {value : Option Constant}
    (h : variableValue schema supplied d = .ok value) : value = declaredValue supplied d := by
  rw [variableValue] at h
  rw [declaredValue]
  cases hs : supplied.get? d.name with
  | some json =>
    simp only [hs] at h
    split at h
    · exact (Except.ok.inj h).symm
    · cases h
  | none =>
    simp only [hs] at h
    cases hd : d.default with
    | some constant =>
      simp only [hd] at h
      split at h
      · exact (Except.ok.inj h).symm
      · cases h
    | none =>
      simp only [hd] at h
      split at h
      · exact (Except.ok.inj h).symm
      · cases h

theorem eq_of_variablePairs {declarations : List VariableDefinition}
    {pairs : List (String × Option Constant)}
    (h : variablePairs schema supplied declarations = .ok pairs) :
    pairs = declarations.map fun d => (d.name, declaredValue supplied d) := by
  induction declarations generalizing pairs with
  | nil => exact (Except.ok.inj h).symm
  | cons d rest ih =>
    obtain ⟨value, hvalue, h⟩ := exists_of_bind_ok h
    obtain ⟨more, hmore, h⟩ := exists_of_bind_ok h
    rw [← Except.ok.inj h, eq_of_variableValue hvalue, ih hmore, List.map_cons]

variable {declarations : List VariableDefinition} (hn : (declarations.map (·.name)).Nodup)
  (hb : Plan.bindings schema supplied declarations = .ok bindings)

include hn hb

theorem bindings_of_nodup :
    bindings = declarations.map (fun d => (d.name, declaredValue supplied d)) ∧
      bindings.names.Nodup := by
  obtain ⟨pairs, hp, rfl⟩ := exists_of_map_ok hb
  have hnames : (Table.names pairs).Nodup := by
    rw [eq_of_variablePairs hp, Table.names, List.map_map]
    exact hn
  rw [Table.ofPairs_of_nodup hnames]
  exact ⟨eq_of_variablePairs hp, hnames⟩

theorem get?_of_declaredValues {name : String} {v : Constant}
    (h : (declaredValues supplied declarations).get? name = some v) :
    bindings.get? name = some (some v) := by
  obtain ⟨hbindings, hnames⟩ := bindings_of_nodup hn hb
  obtain ⟨d, hd, hv⟩ := List.mem_filterMap.mp (Table.mem_of_get? h)
  obtain ⟨w, hw, he⟩ := Option.map_eq_some_iff.mp hv
  cases he
  refine Table.get?_of_mem hnames ?_
  rw [hbindings]
  exact List.mem_map.mpr ⟨d, hd, by rw [hw]⟩

/-- Where every declared variable stands for something, no other variable is bound. -/
theorem get?_eq_none_of_declaredValues (hv : ∀ d ∈ declarations, declaredValue supplied d ≠ none)
    {name : String} (h : (declaredValues supplied declarations).get? name = none) :
    bindings.get? name = none := by
  obtain ⟨hbindings, -⟩ := bindings_of_nodup hn hb
  cases hget : bindings.get? name with
  | none => rfl
  | some value =>
    have hm := Table.mem_of_get? hget
    rw [hbindings] at hm
    obtain ⟨d, hd, he⟩ := List.mem_map.mp hm
    cases he
    exact absurd ((Table.get?_filterMap hn hd).symm.trans h) (hv d hd)

end Operation

variable {limit : Nat} {label : Option String} {operation operation' : Operation}
  {fragments : Table Fragment} {supplied supplied' : Table Json}

/-- An operation and a grounded one have the same plan. -/
theorem ofOperation_grounded (hg : Grounds values bindings bindings')
    (hb : Plan.bindings schema supplied operation.declarations = .ok bindings)
    (hb' : Plan.bindings schema supplied' operation'.declarations = .ok bindings')
    (hp : operation'.position = operation.position) (ht : operation'.type = operation.type)
    (hs : operation'.selections = groundedAll values operation.selections) :
    ofOperation schema limit
        (Table.mapValues (fun _ fragment => fragment.grounded values) fragments) label operation'
        supplied' =
      ofOperation schema limit fragments label operation supplied := by
  have hroot : rootName schema operation' = rootName schema operation := by
    rw [rootName, rootName, ht, hp]
  have hsel : ∀ container, selected ((⟨schema, fragments, bindings, limit⟩ : Scope ρ).grounded
      values bindings') container 1 [] operation'.selections =
      selected ⟨schema, fragments, bindings, limit⟩ container 1 [] operation.selections := by
    intro container
    rw [selected, selected, hs, collect_grounded hg]
  have hscope : (⟨schema, fragments, bindings, limit⟩ : Scope ρ).grounded values bindings' =
      ⟨schema, Table.mapValues (fun _ fragment => fragment.grounded values) fragments, bindings',
        limit⟩ := rfl
  rw [hscope] at hsel
  unfold ofOperation
  simp only [hroot, hb, hb', ok_bind, hsel, hp, ht]

theorem chosen_update {f : Operation → Operation} {operations : Operations} {name : Option String}
    (h : chosen operations name = .ok (label, operation)) :
    chosen (operations.update label f) name = .ok (label, f operation) := by
  cases operations with
  | single only =>
    cases h
    rfl
  | named operations =>
    cases name with
    | some name =>
      rw [chosen_named] at h
      rw [Operations.update, chosen_named, Table.get?_mapValues]
      cases hget : Table.get? name operations with
      | none =>
        rw [hget] at h
        cases h
      | some found =>
        rw [hget] at h
        cases h
        simp
    | none =>
      match operations with
      | [] => cases h
      | [only] =>
        cases h
        simp [Operations.update, Table.mapValues, chosen]
      | _ :: _ :: _ => cases h

/-- Where the variables of an operation have distinct names and values that pass, and none is left
without a value, the values may be written in place of the variables: the document comes to the
same, be it a plan or a reason why there is none. It does so, too, if the operation then declares
nothing and nothing is supplied that it would look at. -/
theorem variables_transparent {document : Document} {name : Option String}
    (hc : chosen document.operations name = .ok (label, operation))
    (hn : (operation.declarations.map (·.name)).Nodup)
    (hb : Plan.bindings schema supplied operation.declarations = .ok bindings)
    (hv : ∀ d ∈ operation.declarations, declaredValue supplied d ≠ none) :
    ofDocument schema limit
        (document.grounded label (declaredValues supplied operation.declarations)) name supplied =
      ofDocument schema limit document name supplied ∧
    ∀ supplied', ofDocument schema limit
        (document.closed label (declaredValues supplied operation.declarations)) name supplied' =
      ofDocument schema limit document name supplied := by
  have hgiven : ∀ name v, (declaredValues supplied operation.declarations).get? name = some v →
      bindings.get? name = some (some v) := fun _ _ => get?_of_declaredValues hn hb
  constructor
  · rw [ofDocument_of_chosen hc, ofDocument_of_chosen (chosen_update hc)]
    exact ofOperation_grounded ⟨hgiven, fun _ _ => rfl⟩ hb hb rfl rfl rfl
  · intro supplied'
    have hnone : Plan.bindings schema supplied' [] = .ok [] := rfl
    rw [ofDocument_of_chosen hc, ofDocument_of_chosen (chosen_update hc)]
    refine ofOperation_grounded ⟨hgiven, fun name h => ?_⟩ hb hnone rfl rfl rfl
    exact (get?_eq_none_of_declaredValues hn hb hv h).symm

end GraphGate.Plan

namespace GraphGate.Sample

open Query Plan

def findingQuery : ObjectType Unit :=
  ⟨"Query", [⟨⟨"find", .named "User" true,
    [⟨"ids", .list (.named "ID" false) false, none⟩]⟩, .callable ()⟩], none⟩

def findingSchema : Schema Unit where
  types := [.scalar "Boolean", .scalar "ID", .scalar "String", .object findingQuery, .object user]
  query := "Query"
  mutation := none

/-- The operation of the query `query Find($id: ID!, $full: Boolean = true) { find(ids: [$id]) {
...Full } }`. -/
def findOperation : Operation where
  position := ⟨1, 1⟩
  type := .query
  declarations := [⟨⟨1, 13⟩, "id", .named "ID" false, none⟩,
    ⟨⟨1, 22⟩, "full", .named "Boolean" true, some (.bool true)⟩]
  selections := [.field ⟨⟨1, 45⟩, none, "find", [⟨"ids", ⟨1, 55⟩, .list [.var "id"]⟩], []⟩
    [.spread ⟨⟨1, 64⟩, "Full", []⟩]]

/-- The operation beside the fragment `fragment Full on User { name @include(if: $full) }`. -/
def findDocument : Document where
  operations := .named [("Find", findOperation)]
  fragments := [("Full", ⟨⟨2, 1⟩, "User", [.field ⟨⟨2, 25⟩, none, "name", [],
    [⟨⟨2, 30⟩, "include", [⟨"if", ⟨2, 43⟩, .var "full"⟩]⟩]⟩ []]⟩)]

/-- The document with 7 in the place of `$id` and true in that of `$full`, and nothing declared. -/
def foundDocument : Document where
  operations := .named [("Find", ⟨⟨1, 1⟩, .query, [], [.field
    ⟨⟨1, 45⟩, none, "find", [⟨"ids", ⟨1, 55⟩, .list [.number (.int 7)]⟩], []⟩
    [.spread ⟨⟨1, 64⟩, "Full", []⟩]]⟩)]
  fragments := [("Full", ⟨⟨2, 1⟩, "User", [.field ⟨⟨2, 25⟩, none, "name", [],
    [⟨⟨2, 30⟩, "include", [⟨"if", ⟨2, 43⟩, .bool true⟩]⟩]⟩ []]⟩)]

theorem variables_transparent_find :
    ofDocument findingSchema 64 foundDocument none [] =
      ofDocument findingSchema 64 findDocument none [("id", .num (.int 7))] := by
  have hc : chosen findDocument.operations none = .ok (some "Find", findOperation) := rfl
  have hb : Plan.bindings findingSchema [("id", .num (.int 7))] findOperation.declarations =
      .ok [("id", some (.number (.int 7))), ("full", some (.bool true))] := by cbv
  have hv : ∀ d ∈ findOperation.declarations, declaredValue [("id", .num (.int 7))] d ≠ none := by
    intro d hd
    simp only [findOperation, List.mem_cons, List.not_mem_nil, or_false] at hd
    rcases hd with rfl | rfl
    · exact Option.some_ne_none _
    · exact Option.some_ne_none _
  exact (variables_transparent hc (by decide) hb hv).2 []

end GraphGate.Sample
