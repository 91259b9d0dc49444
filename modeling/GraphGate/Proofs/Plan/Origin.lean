import GraphGate.Proofs.Json
import GraphGate.Proofs.Plan.WellFormed
import GraphGate.Proofs.Schema
import Mathlib.Data.List.Nodup

/-! Where the nodes of a plan come from: each stems from a field of the query that the same keys
lead to, and all other fields there have its name and arguments that count as the same. -/
namespace GraphGate

open Query

variable {ρ : Type}

/-- The key of the field in the response. -/
def Query.FieldHead.outputName (head : FieldHead) : String := head.aliasName.getD head.name

/-- Keys of the response lead from selections to a field of the query. -/
inductive Leads (fragments : Table Fragment) (bindings : Plan.Bindings) :
    List Selection → List String → FieldHead → Prop
  | here {selections inner : List Selection} {head : FieldHead}
    (hm : .field head inner ∈ selections) (hi : Plan.included bindings head.directives = .ok true) :
    Leads fragments bindings selections [head.outputName] head
  | field {selections inner : List Selection} {head found : FieldHead} {names : List String}
    (hm : .field head inner ∈ selections) (hi : Plan.included bindings head.directives = .ok true)
    (h : Leads fragments bindings inner names found) :
    Leads fragments bindings selections (head.outputName :: names) found
  | inline {selections inner : List Selection} {head : InlineHead} {found : FieldHead}
    {names : List String} (hm : .inline head inner ∈ selections)
    (hi : Plan.included bindings head.directives = .ok true)
    (h : Leads fragments bindings inner names found) :
    Leads fragments bindings selections names found
  | spread {selections : List Selection} {spread : Spread} {fragment : Fragment}
    {found : FieldHead} {names : List String} (hm : .spread spread ∈ selections)
    (hi : Plan.included bindings spread.directives = .ok true)
    (hf : fragments.get? spread.name = some fragment)
    (h : Leads fragments bindings fragment.selections names found) :
    Leads fragments bindings selections names found

/-- Keys lead from the nodes on an object type to a node, and to the type that it is selected on. -/
inductive Finds (schema : Schema ρ) :
    ObjectType ρ → List FieldNode → List String → ObjectType ρ → FieldNode → Prop
  | here {container : ObjectType ρ} {nodes : List FieldNode} {node : FieldNode}
    (hm : node ∈ nodes) : Finds schema container nodes [node.outputName] container node
  | under {container type container' : ObjectType ρ} {nodes : List FieldNode}
    {node found : FieldNode} {names : List String} {definition : FieldDefinition ρ}
    (hm : node ∈ nodes) (hd : container.field? node.name = some definition)
    (ht : schema.object? definition.type.innermost = some type)
    (h : Finds schema type node.children names container' found) :
    Finds schema container nodes (node.outputName :: names) container' found

variable {schema : Schema ρ} {container container' : ObjectType ρ} {nodes nodes' : List FieldNode}
  {names : List String} {node : FieldNode}

theorem leads_mono {fragments : Table Fragment} {bindings : Plan.Bindings}
    {selections selections' : List Selection} {head : FieldHead} (hs : selections ⊆ selections')
    (h : Leads fragments bindings selections names head) :
    Leads fragments bindings selections' names head := by
  cases h with
  | here hm hi => exact .here (hs hm) hi
  | field hm hi h => exact .field (hs hm) hi h
  | inline hm hi h => exact .inline (hs hm) hi h
  | spread hm hi hf h => exact .spread (hs hm) hi hf h

theorem finds_mono (hs : nodes ⊆ nodes') (h : Finds schema container nodes names container' node) :
    Finds schema container nodes' names container' node := by
  cases h with
  | here hm => exact .here (hs hm)
  | under hm hd ht h => exact .under (hs hm) hd ht h

theorem finds_append (h : Finds schema container (nodes ++ nodes') names container' node) :
    Finds schema container nodes names container' node ∨
      Finds schema container nodes' names container' node := by
  cases h with
  | here hm => exact (List.mem_append.mp hm).imp .here .here
  | under hm hd ht h => exact (List.mem_append.mp hm).imp (.under · hd ht h) (.under · hd ht h)

theorem exists_mem_of_finds (h : Finds schema container nodes names container' node) :
    ∃ first ∈ nodes, Finds schema container [first] names container' node := by
  cases h with
  | here hm => exact ⟨node, hm, .here (by simp)⟩
  | under hm hd ht h => exact ⟨_, hm, .under (by simp) hd ht h⟩

theorem not_finds_nil : ¬ Finds schema container [] names container' node := by
  intro h
  cases h with
  | here hm => cases hm
  | under hm _ _ _ => cases hm

theorem object?_of_finds (hc : schema.object? container.name = some container)
    (h : Finds schema container nodes names container' node) :
    schema.object? container'.name = some container' := by
  induction h with
  | here _ => exact hc
  | under _ _ ht _ ih =>
    rw [← name_of_object? ht] at ht
    exact ih ht

/-- What is selected below a node is selected well. -/
theorem wellSelected_children {type : ObjectType ρ} {definition : FieldDefinition ρ}
    (hw : node.WellFormed schema container) (hd : container.field? node.name = some definition)
    (ht : schema.object? definition.type.innermost = some type) (hc : node.children ≠ []) :
    WellSelected schema node.children type := by
  cases hw with
  | leaf _ he => exact absurd he hc
  | object hs hdistinct hchildren =>
    cases hs with
    | field _ hd' _ hb =>
      rw [hd, Option.some.injEq] at hd'
      subst hd'
      rw [ht, Option.some.injEq] at hb
      subst hb
      exact ⟨hdistinct, hchildren⟩

/-- In a plan, keys lead to one node. -/
theorem finds_unique {container'' : ObjectType ρ} {node' : FieldNode}
    (hw : WellSelected schema nodes container)
    (h : Finds schema container nodes names container' node)
    (h' : Finds schema container nodes names container'' node') :
    container'' = container' ∧ node' = node := by
  induction h with
  | @here container nodes node hm =>
    generalize hnames : [node.outputName] = names at h'
    cases h' with
    | here hm' =>
      have hout := (List.cons.inj hnames).1
      exact ⟨rfl, (List.inj_on_of_nodup_map hw.distinct hm hm' hout).symm⟩
    | under _ _ _ hf =>
      rw [← (List.cons.inj hnames).2] at hf
      cases hf
  | @under container type container' nodes node found names definition hm hd ht hf ih =>
    generalize hnames : node.outputName :: names = names' at h'
    cases h' with
    | here _ =>
      rw [(List.cons.inj hnames).2] at hf
      cases hf
    | @under _ type' _ _ node'' _ names'' definition' hm' hd' ht' hf' =>
      have hout := (List.cons.inj hnames).1
      have he := List.inj_on_of_nodup_map hw.distinct hm hm' hout
      subst he
      rw [hd, Option.some.injEq] at hd'
      subst hd'
      rw [ht, Option.some.injEq] at ht'
      subst ht'
      rw [← (List.cons.inj hnames).2] at hf'
      have hne : node.children ≠ [] := by
        intro he
        rw [he] at hf
        exact not_finds_nil hf
      exact ih (wellSelected_children (hw.wellFormed node hm) hd ht hne) hf'

namespace Plan

section Merging

/-- A node of a level covers another one: it has its names and its children, and arguments that
count as the same. -/
def Covers (level : List FieldNode) (node : FieldNode) : Prop :=
  ∃ m ∈ level, m.outputName = node.outputName ∧ m.name = node.name ∧
    (Json.obj m.arguments).Matches (.obj node.arguments) ∧ node.children ⊆ m.children

variable {start result merged : List FieldNode} {other : FieldNode}

theorem matches_of_sameSelection {a b : FieldNode} (h : sameSelection a b = true) :
    (Json.obj a.arguments).Matches (.obj b.arguments) := by
  simp only [sameSelection, Bool.and_eq_true] at h
  exact .inr h.2

theorem covers_self (h : layOver node nodes = .ok result) : Covers result node := by
  rcases exists_of_layOver h with ⟨-, rfl⟩ | ⟨before, existing, after, rfl, hn, hs, rfl⟩
  · exact ⟨node, by simp, rfl, rfl, .inl rfl, List.Subset.refl _⟩
  · exact ⟨_, List.mem_append_right _ List.mem_cons_self, hn, name_eq_of_sameSelection hs,
      matches_of_sameSelection hs, List.subset_append_right _ _⟩

theorem covers_layOver (h : layOver node nodes = .ok result) (hc : Covers nodes other) :
    Covers result other := by
  obtain ⟨m, hm, hout, hname, hargs, hsub⟩ := hc
  rcases exists_of_layOver h with ⟨-, rfl⟩ | ⟨before, existing, after, rfl, -, -, rfl⟩
  · exact ⟨m, by simp [hm], hout, hname, hargs, hsub⟩
  · rw [List.mem_append, List.mem_cons] at hm
    rcases hm with hm | rfl | hm
    · exact ⟨m, by simp [hm], hout, hname, hargs, hsub⟩
    · exact ⟨_, List.mem_append_right _ List.mem_cons_self, hout, hname, hargs,
        List.subset_append_of_subset_left _ hsub⟩
    · exact ⟨m, by simp [hm], hout, hname, hargs, hsub⟩

theorem covers_foldlM (h : nodes.foldlM (fun level node => layOver node level) start = .ok result)
    (hc : other ∈ nodes ∨ Covers start other) : Covers result other := by
  induction nodes generalizing start with
  | nil =>
    cases h
    exact hc.resolve_left (by simp)
  | cons node rest ih =>
    rw [List.foldlM_cons] at h
    obtain ⟨next, hn, h⟩ := exists_of_bind_ok h
    refine ih h ?_
    rcases hc with hm | hc
    · rcases List.mem_cons.mp hm with rfl | hm
      · exact .inr (covers_self hn)
      · exact .inl hm
    · exact .inr (covers_layOver hn hc)

/-- Every node is covered by its level. -/
theorem covers_of_level (h : level nodes = .ok merged) (hm : node ∈ nodes) : Covers merged node :=
  covers_foldlM h (.inl hm)

/-- What a level has was there before it was merged: the node but for its children, and the children
under nodes of its names. -/
def Gathered (nodes : List FieldNode) (m : FieldNode) : Prop :=
  (∃ node ∈ nodes, ∃ children, m = { node with children }) ∧
    ∀ child ∈ m.children, ∃ node ∈ nodes, node.outputName = m.outputName ∧ node.name = m.name ∧
      child ∈ node.children

theorem gathered_self (hm : node ∈ nodes) : Gathered nodes node :=
  ⟨⟨node, hm, node.children, by cases node; rfl⟩, fun _ hc => ⟨node, hm, rfl, rfl, hc⟩⟩

theorem gathered_layOver (hm : node ∈ nodes) (hg : ∀ m ∈ start, Gathered nodes m)
    (h : layOver node start = .ok result) : ∀ m ∈ result, Gathered nodes m := by
  rcases exists_of_layOver h with ⟨-, rfl⟩ | ⟨before, existing, after, rfl, hn, hs, rfl⟩
  · intro m hr
    rcases List.mem_append.mp hr with hr | hr
    · exact hg m hr
    · rw [List.mem_singleton.mp hr]
      exact gathered_self hm
  · intro m hr
    rw [List.mem_append, List.mem_cons] at hr
    rcases hr with hr | rfl | hr
    · exact hg m (by simp [hr])
    · obtain ⟨⟨source, hsource, children, he⟩, hchildren⟩ := hg existing (by simp)
      refine ⟨⟨source, hsource, existing.children ++ node.children, by rw [he]⟩, ?_⟩
      intro child hc
      rcases List.mem_append.mp hc with hc | hc
      · exact hchildren child hc
      · exact ⟨node, hm, hn.symm, (name_eq_of_sameSelection hs).symm, hc⟩
    · exact hg m (by simp [hr])

theorem gathered_of_level (h : level nodes = .ok merged) : ∀ m ∈ merged, Gathered nodes m :=
  invariant_of_foldlM (P := fun level => ∀ m ∈ level, Gathered nodes m) (by simp)
    (fun _ hm _ _ hg h => gathered_layOver hm hg h) h

/-- What is found after merging was there before it, but for its children. -/
theorem exists_of_finds_overlay (h : overlay nodes = .ok result)
    (hf : Finds schema container result names container' node) :
    ∃ node' children, Finds schema container nodes names container' node' ∧
      node = { node' with children } := by
  induction nodes using overlay.induct generalizing container result names with
  | case1 nodes e he =>
    obtain ⟨merged, hm, -⟩ := exists_of_overlay h
    rw [he] at hm
    cases hm
  | case2 nodes merged hm ih =>
    obtain ⟨merged', hm', hall⟩ := exists_of_overlay h
    rw [hm, Except.ok.injEq] at hm'
    subst hm'
    cases hf with
    | here hr =>
      obtain ⟨m, hmem, children, -, rfl⟩ := exists_of_forall₂_of_mem hall hr
      obtain ⟨⟨source, hs, children', rfl⟩, -⟩ := gathered_of_level hm m hmem
      exact ⟨source, children, .here hs, rfl⟩
    | under hr hd ht hf =>
      obtain ⟨m, hmem, children, hc, rfl⟩ := exists_of_forall₂_of_mem hall hr
      obtain ⟨found, children', hf', rfl⟩ := ih m hmem hc hf
      obtain ⟨child, hchild, hf'⟩ := exists_mem_of_finds hf'
      obtain ⟨source, hs, hout, hname, hsc⟩ := (gathered_of_level hm m hmem).2 child hchild
      rw [← hname] at hd
      have hsource := Finds.under hs hd ht (finds_mono (by simpa using hsc) hf')
      rw [hout] at hsource
      exact ⟨found, children', hsource, rfl⟩

/-- What is found before merging is found after it, with its name and arguments that count as the
same. -/
theorem exists_finds_of_overlay (h : overlay nodes = .ok result)
    (hf : Finds schema container nodes names container' node) :
    ∃ node', Finds schema container result names container' node' ∧ node'.name = node.name ∧
      (Json.obj node'.arguments).Matches (.obj node.arguments) := by
  induction nodes using overlay.induct generalizing container result names with
  | case1 nodes e he =>
    obtain ⟨merged, hm, -⟩ := exists_of_overlay h
    rw [he] at hm
    cases hm
  | case2 nodes merged hm ih =>
    obtain ⟨merged', hm', hall⟩ := exists_of_overlay h
    rw [hm, Except.ok.injEq] at hm'
    subst hm'
    cases hf with
    | here hn =>
      obtain ⟨m, hmem, hout, hname, hargs, -⟩ := covers_of_level hm hn
      obtain ⟨node', hr, children, -, rfl⟩ := exists_of_forall₂_of_mem hall.flip hmem
      rw [← hout]
      exact ⟨{ m with children }, .here hr, hname, hargs⟩
    | under hn hd ht hf =>
      obtain ⟨m, hmem, hout, hname, -, hsub⟩ := covers_of_level hm hn
      obtain ⟨node', hr, children, hc, rfl⟩ := exists_of_forall₂_of_mem hall.flip hmem
      obtain ⟨found, hfound, hsame⟩ := ih m hmem hc (finds_mono hsub hf)
      rw [← hname] at hd
      rw [← hout]
      have hresult : Finds schema container result
          (({ m with children } : FieldNode).outputName :: _) container' found :=
        .under hr hd ht hfound
      exact ⟨found, hresult, hsame⟩

end Merging

section Collect

variable {scope : Scope ρ} {depth : Nat} {visited : List String} {head : FieldHead}

/-- A node has the name of a field of the query and, up to `R`, its arguments. -/
structure Stems (R : Json → Json → Prop) (scope : Scope ρ) (container : ObjectType ρ)
    (head : FieldHead) (node : FieldNode) : Prop where
  name : node.name = head.name
  arguments : head.name ≠ typename → ∃ definition values,
    container.field? head.name = some definition ∧
    Plan.arguments scope.schema scope.bindings head definition = .ok values ∧
    R (.obj node.arguments) (.obj values)

theorem stems_of_matches {node' : FieldNode} (hn : node'.name = node.name)
    (hm : (Json.obj node'.arguments).Matches (.obj node.arguments))
    (h : Stems Json.Matches scope container head node) :
    Stems Json.Matches scope container head node' where
  name := hn.trans h.name
  arguments hne := by
    obtain ⟨definition, values, hd, ha, hm'⟩ := h.arguments hne
    exact ⟨definition, values, hd, ha, Json.matches_trans hm hm'⟩

theorem outputName_of_fieldNode {selections : List Selection}
    (h : fieldNode scope container depth visited head selections = .ok node) :
    node.outputName = head.outputName ∧ node.position = head.position := by
  obtain ⟨-, ⟨-, -, -, rfl⟩ | ⟨-, _, _, _, -, -, -, rfl⟩⟩ := exists_of_fieldNode h
  · exact ⟨rfl, rfl⟩
  · exact ⟨rfl, rfl⟩

/-- The node of a field stems from it. -/
theorem stems_of_fieldNode {selections : List Selection} {R : Json → Json → Prop}
    (hr : ∀ v, R v v) (h : fieldNode scope container depth visited head selections = .ok node) :
    Stems R scope container head node := by
  obtain ⟨-, ⟨hn, -, -, rfl⟩ | ⟨-, definition, values, children, hd, ha, -, rfl⟩⟩ :=
    exists_of_fieldNode h
  · exact ⟨rfl, fun hne => absurd hn hne⟩
  · exact ⟨rfl, fun _ => ⟨definition, values, hd, ha, hr _⟩⟩

/-- What is found below the node of a field is among what the field selects. -/
theorem exists_of_finds_children {selections : List Selection} {type : ObjectType ρ}
    {definition : FieldDefinition ρ}
    (h : fieldNode scope container depth visited head selections = .ok node)
    (hd : container.field? node.name = some definition)
    (ht : scope.schema.object? definition.type.innermost = some type) {found : FieldNode}
    (hf : Finds scope.schema type node.children names container' found) :
    ∃ nodes, collect scope type (depth + 1) visited selections = .ok nodes ∧
      overlay nodes = .ok node.children := by
  obtain ⟨-, ⟨-, -, -, rfl⟩ | ⟨-, definition', values, children, hd', -, hc, rfl⟩⟩ :=
    exists_of_fieldNode h
  · exact absurd hf not_finds_nil
  · rw [hd', Option.some.injEq] at hd
    subst hd
    rw [ht] at hc
    cases hc with
    | object _ hc hm => exact ⟨_, hc, hm⟩

mutual

/-- Keys that lead to a node lead to a field of the query from which it stems. -/
theorem exists_leads_of_collect {container container' : ObjectType ρ} {depth : Nat}
    {visited : List String} {selections : List Selection} {nodes : List FieldNode}
    {names : List String} {node : FieldNode}
    (h : collect scope container depth visited selections = .ok nodes)
    (hf : Finds scope.schema container nodes names container' node) :
    ∃ head, Leads scope.fragments scope.bindings selections names head ∧
      Stems Eq scope container' head node ∧ node.position = head.position := by
  match selections with
  | [] =>
    rw [collect_nil] at h
    cases h
    exact absurd hf not_finds_nil
  | selection :: rest =>
    obtain ⟨first, more, hfirst, hmore, rfl⟩ := exists_of_collect_cons h
    rcases finds_append hf with hf | hf
    · obtain ⟨head, hl, hs⟩ := exists_leads_of_collectOne hfirst hf
      exact ⟨head, leads_mono (by simp) hl, hs⟩
    · obtain ⟨head, hl, hs⟩ := exists_leads_of_collect hmore hf
      exact ⟨head, leads_mono (by simp) hl, hs⟩
termination_by (unvisited scope.fragments visited, sizeOf selections)

theorem exists_leads_of_collectOne {container container' : ObjectType ρ} {depth : Nat}
    {visited : List String} {selection : Selection} {nodes : List FieldNode}
    {names : List String} {node : FieldNode}
    (h : collectOne scope container depth visited selection = .ok nodes)
    (hf : Finds scope.schema container nodes names container' node) :
    ∃ head, Leads scope.fragments scope.bindings [selection] names head ∧
      Stems Eq scope container' head node ∧ node.position = head.position := by
  match selection with
  | .field head inner =>
    rcases exists_of_collectOne_field h with ⟨-, rfl⟩ | ⟨hi, first, hn, rfl⟩
    · exact absurd hf not_finds_nil
    · obtain ⟨hout, hp⟩ := outputName_of_fieldNode hn
      cases hf with
      | here hm =>
        rw [List.mem_singleton.mp hm, hout]
        exact ⟨head, .here (List.mem_singleton_self _) hi, stems_of_fieldNode (fun _ => rfl) hn, hp⟩
      | under hm hd ht hf =>
        rw [List.mem_singleton] at hm
        subst hm
        obtain ⟨below, hc, ho⟩ := exists_of_finds_children hn hd ht hf
        obtain ⟨node', children, hf', rfl⟩ := exists_of_finds_overlay ho hf
        obtain ⟨found, hl, hs, hp'⟩ := exists_leads_of_collect hc hf'
        rw [hout]
        exact ⟨found, .field (by simp) hi hl, ⟨hs.name, hs.arguments⟩, hp'⟩
  | .spread spread =>
    rcases exists_of_collectOne_spread h with ⟨-, rfl⟩ | ⟨hi, hv, fragment, hget, -, hn⟩
    · exact absurd hf not_finds_nil
    · obtain ⟨head, hl, hs⟩ := exists_leads_of_collect hn hf
      exact ⟨head, .spread (by simp) hi hget hl, hs⟩
  | .inline head inner =>
    rcases exists_of_collectOne_inline h with ⟨-, rfl⟩ | ⟨hi, -, hn⟩
    · exact absurd hf not_finds_nil
    · obtain ⟨found, hl, hs⟩ := exists_leads_of_collect hn hf
      exact ⟨found, .inline (by simp) hi hl, hs⟩
termination_by (unvisited scope.fragments visited, sizeOf selection)
decreasing_by
  · exact Prod.Lex.right _ (Nat.lt_of_succ_lt sizeOf_lt_field)
  · exact Prod.Lex.left _ _ (unvisited_cons_lt hget hv)
  · exact Prod.Lex.right _ sizeOf_lt_inline

end

theorem not_leads_nil {fragments : Table Fragment} {bindings : Bindings} :
    ¬ Leads fragments bindings [] names head := by
  intro h
  cases h with
  | here hm _ => cases hm
  | field hm _ _ => cases hm
  | inline hm _ _ => cases hm
  | spread hm _ _ _ => cases hm

/-- A field with selections has the type of an object, and below its node is what they select. -/
theorem exists_of_fieldNode_object {selections : List Selection} (hs : selections ≠ [])
    (h : fieldNode scope container depth visited head selections = .ok node) :
    ∃ definition type nodes, container.field? node.name = some definition ∧
      scope.schema.object? definition.type.innermost = some type ∧
      collect scope type (depth + 1) visited selections = .ok nodes ∧
      overlay nodes = .ok node.children := by
  obtain ⟨-, ⟨-, -, he, -⟩ | ⟨-, definition, values, children, hd, -, hc, rfl⟩⟩ :=
    exists_of_fieldNode h
  · exact absurd he hs
  · cases ht : scope.schema.object? definition.type.innermost with
    | none =>
      rw [ht] at hc
      cases hc with
      | leaf he => exact absurd he hs
    | some type =>
      rw [ht] at hc
      cases hc with
      | object _ hc hm => exact ⟨definition, type, _, hd, ht, hc, hm⟩

/-- Keys that lead to a field of the query lead to a node that stems from it, up to arguments that
count as the same. -/
theorem exists_finds_of_collect {selections : List Selection}
    (hl : Leads scope.fragments scope.bindings selections names head)
    (h : collect scope container depth visited selections = .ok nodes) :
    ∃ container' node, Finds scope.schema container nodes names container' node ∧
      Stems Json.Matches scope container' head node := by
  induction hl generalizing container depth visited nodes with
  | @here selections inner head hm hi =>
    obtain ⟨found, hfound, hsub⟩ := exists_of_collect_of_mem hm h
    rcases exists_of_collectOne_field hfound with ⟨he, -⟩ | ⟨-, node, hn, rfl⟩
    · rw [hi] at he
      cases he
    · rw [← (outputName_of_fieldNode hn).1]
      exact ⟨container, node, .here (hsub (by simp)), stems_of_fieldNode Json.matches_refl hn⟩
  | @field selections inner head found names hm hi hl ih =>
    obtain ⟨collected, hcollected, hsub⟩ := exists_of_collect_of_mem hm h
    rcases exists_of_collectOne_field hcollected with ⟨he, -⟩ | ⟨-, node, hn, rfl⟩
    · rw [hi] at he
      cases he
    · have hne : inner ≠ [] := by
        rintro rfl
        exact not_leads_nil hl
      obtain ⟨definition, type, below, hd, ht, hc, ho⟩ := exists_of_fieldNode_object hne hn
      obtain ⟨container', node', hf, hstems⟩ := ih hc
      obtain ⟨node'', hf', hname, hargs⟩ := exists_finds_of_overlay ho hf
      rw [← (outputName_of_fieldNode hn).1]
      exact ⟨container', node'', .under (hsub (by simp)) hd ht hf',
        stems_of_matches hname hargs hstems⟩
  | @inline selections inner head found names hm hi hl ih =>
    obtain ⟨collected, hcollected, hsub⟩ := exists_of_collect_of_mem hm h
    rcases exists_of_collectOne_inline hcollected with ⟨he, -⟩ | ⟨-, -, hn⟩
    · rw [hi] at he
      cases he
    · obtain ⟨container', node, hf, hstems⟩ := ih hn
      exact ⟨container', node, finds_mono hsub hf, hstems⟩
  | @spread selections spread fragment found names hm hi hget hl ih =>
    obtain ⟨collected, hcollected, hsub⟩ := exists_of_collect_of_mem hm h
    rcases exists_of_collectOne_spread hcollected with ⟨he, -⟩ | ⟨-, -, fragment', hget', -, hn⟩
    · rw [hi] at he
      cases he
    · rw [hget, Option.some.injEq] at hget'
      subst hget'
      obtain ⟨container', node, hf, hstems⟩ := ih hn
      exact ⟨container', node, finds_mono hsub hf, hstems⟩

variable {selections : List Selection}

/-- A node of a plan stems from a field of the query at the same keys. -/
theorem exists_leads_of_selected
    (h : selected scope container depth visited selections = .ok nodes)
    (hf : Finds scope.schema container nodes names container' node) :
    ∃ head, Leads scope.fragments scope.bindings selections names head ∧
      Stems Eq scope container' head node ∧ node.position = head.position := by
  obtain ⟨collected, hc, ho⟩ := exists_of_bind_ok h
  obtain ⟨node', children, hf', rfl⟩ := exists_of_finds_overlay ho hf
  obtain ⟨head, hl, hs, hp⟩ := exists_leads_of_collect hc hf'
  exact ⟨head, hl, ⟨hs.name, hs.arguments⟩, hp⟩

theorem exists_finds_of_selected
    (h : selected scope container depth visited selections = .ok nodes)
    (hl : Leads scope.fragments scope.bindings selections names head) :
    ∃ container' node, Finds scope.schema container nodes names container' node ∧
      Stems Json.Matches scope container' head node := by
  obtain ⟨collected, hc, ho⟩ := exists_of_bind_ok h
  obtain ⟨container', node', hf, hs⟩ := exists_finds_of_collect hl hc
  obtain ⟨node, hf', hname, hargs⟩ := exists_finds_of_overlay ho hf
  exact ⟨container', node, hf', stems_of_matches hname hargs hs⟩

end Collect

end Plan

end GraphGate
