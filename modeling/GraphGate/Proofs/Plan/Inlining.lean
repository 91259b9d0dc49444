import GraphGate.Proofs.Plan.Acyclic
import GraphGate.Proofs.Plan.Height

/-! A fragment may stand in the place of its spreads: a document in which some have been replaced by
inline fragments has the same plans, and none where there was none. -/
namespace GraphGate.Plan

open Query

variable {ρ : Type} {scope : Scope ρ} {fragments' : Table Fragment}

mutual

/-- What is collected is also collected where fragments have been put in the place of spreads. Fewer
fragments are visited on the way. -/
theorem collect_of_inlined
    (hf : Table.Related (FragmentInlined scope.fragments) scope.fragments fragments')
    {container : ObjectType ρ} {depth : Nat} {visited visited' : List String}
    {selections selections' : List Selection} {nodes : List FieldNode} (hv : visited' ⊆ visited)
    (hs : InlinedAll scope.fragments selections selections')
    (h : collect scope container depth visited selections = .ok nodes) :
    collect (scope.withFragments fragments') container depth visited' selections' = .ok nodes := by
  match selections, hs with
  | [], .nil =>
    rw [collect_nil] at h ⊢
    exact h
  | selection :: rest, .cons hone hrest =>
    obtain ⟨first, more, hfirst, hmore, rfl⟩ := exists_of_collect_cons h
    rw [collect, collectOne_of_inlined hf hv hone hfirst, collect_of_inlined hf hv hrest hmore]
    rfl
termination_by (unvisited scope.fragments visited, sizeOf selections)

theorem collectOne_of_inlined
    (hf : Table.Related (FragmentInlined scope.fragments) scope.fragments fragments')
    {container : ObjectType ρ} {depth : Nat} {visited visited' : List String}
    {selection selection' : Selection} {nodes : List FieldNode} (hv : visited' ⊆ visited)
    (hs : Inlined scope.fragments selection selection')
    (h : collectOne scope container depth visited selection = .ok nodes) :
    collectOne (scope.withFragments fragments') container depth visited' selection' =
      .ok nodes := by
  match selection, hs with
  | .field head inner, .field hinner =>
    rcases exists_of_collectOne_field h with ⟨hi, rfl⟩ | ⟨hi, node, hn, rfl⟩
    · exact collectOne_of_excluded _ (.field head _) hi
    · rw [collectOne_field_of_included (scope.withFragments fragments') hi]
      exact congrArg (Except.map _) (fieldNode_of_collect scope (scope.withFragments fragments')
        rfl rfl (exists_of_fieldNode hn).1 (isEmpty_of_inlinedAll hinner)
        (fun _ _ => collect_of_inlined hf hv hinner) hn)
  | .inline head inner, .inline hinner =>
    rcases exists_of_collectOne_inline h with ⟨hi, rfl⟩ | ⟨hi, hc, hn⟩
    · exact collectOne_of_excluded _ (.inline head _) hi
    · rw [collectOne_inline_of_eq (scope.withFragments fragments') hi hc]
      exact collect_of_inlined hf hv hinner hn
  | .spread spread, .kept =>
    rcases exists_of_collectOne_spread h with ⟨hi, rfl⟩ | ⟨hi, hnot, fragment, hget, hc, hn⟩
    · exact collectOne_of_excluded _ (.spread spread) hi
    · obtain ⟨fragment', hget', hr⟩ := Table.exists_right_of_related hf hget
      have hnot' : visited'.contains spread.name = false := by
        rw [List.contains_eq_mem, decide_eq_false_iff_not] at hnot ⊢
        exact fun hm => hnot (hv hm)
      rw [collectOne_spread_of_get? (scope.withFragments fragments') hi hnot' hget'
        (hr.condition.trans hc)]
      exact collect_of_inlined hf (List.cons_subset_cons _ hv) hr.selections hn
  | .spread spread, .replaced hget =>
    rcases exists_of_collectOne_spread h with ⟨hi, rfl⟩ | ⟨hi, hnot, fragment, hget', hc, hn⟩
    · exact collectOne_of_excluded _ (.inline _ _) hi
    · rw [hget, Option.some.injEq] at hget'
      subst hget'
      refine (collectOne_inline_of_eq (scope.withFragments fragments') ?_ ?_).trans ?_
      · exact hi
      · rintro condition ⟨⟩
        exact hc
      · exact collect_of_inlined hf (fun _ hm => .tail _ (hv hm)) (inlinedAll_refl _) hn
termination_by (unvisited scope.fragments visited, sizeOf selection)
decreasing_by
  · exact Prod.Lex.right _ (Nat.lt_of_succ_lt sizeOf_lt_field)
  · exact Prod.Lex.right _ sizeOf_lt_inline
  · exact Prod.Lex.left _ _ (unvisited_cons_lt hget hnot)
  · exact Prod.Lex.left _ _ (unvisited_cons_lt hget hnot)

end

section Clear

variable {fragments : Table Fragment} {bindings : Bindings} {visited : List String}
  {selections selections' : List Selection}

/-- None of the fragments that are reached lies on the way, and none reaches itself. -/
def Clear (fragments : Table Fragment) (bindings : Bindings) (visited : List String)
    (selections : List Selection) : Prop :=
  ∀ name, Reaches fragments bindings selections name → name ∉ visited ∧
    ∀ fragment, fragments.get? name = some fragment →
      ¬ Reaches fragments bindings fragment.selections name

theorem clear_of_reaches (hr : ∀ name, Reaches fragments bindings selections' name →
    Reaches fragments bindings selections name) (h : Clear fragments bindings visited selections) :
    Clear fragments bindings visited selections' :=
  fun name hn => h name (hr name hn)

theorem not_contains_of_clear {spread : Spread}
    (hi : included bindings spread.directives = .ok true)
    (h : Clear fragments bindings visited [.spread spread]) :
    visited.contains spread.name = false := by
  rw [List.contains_eq_mem, decide_eq_false_iff_not]
  exact (h _ (.direct (.here (by simp) (ne_of_included hi)))).1

/-- The way into a fragment is clear, too, and goes through that fragment. -/
theorem clear_of_spread {spread : Spread} {fragment : Fragment}
    (hi : included bindings spread.directives ≠ .ok false)
    (hf : fragments.get? spread.name = some fragment)
    (h : Clear fragments bindings visited [.spread spread]) :
    Clear fragments bindings (spread.name :: visited) fragment.selections := by
  intro name hr
  obtain ⟨hv, ha⟩ := h name (reaches_spread hi hf hr)
  refine ⟨?_, ha⟩
  rw [List.mem_cons, not_or]
  refine ⟨?_, hv⟩
  rintro rfl
  exact ha fragment hf hr

end Clear

mutual

/-- And the other way round: what is collected where fragments stand in the place of spreads is
collected through the spreads, if none of them comes back to where it is. -/
theorem collect_of_clear
    (hf : Table.Related (FragmentInlined scope.fragments) scope.fragments fragments')
    {container : ObjectType ρ} {depth : Nat} {visited visited' : List String}
    {selections selections' : List Selection} {nodes : List FieldNode}
    (hclear : Clear scope.fragments scope.bindings visited selections)
    (hs : InlinedAll scope.fragments selections selections')
    (h : collect (scope.withFragments fragments') container depth visited' selections' =
      .ok nodes) :
    collect scope container depth visited selections = .ok nodes := by
  match selections, hs with
  | [], .nil =>
    rw [collect_nil] at h ⊢
    exact h
  | selection :: rest, .cons hone hrest =>
    obtain ⟨first, more, hfirst, hmore, rfl⟩ := exists_of_collect_cons h
    have hclear' : Clear scope.fragments scope.bindings visited [selection] :=
      clear_of_reaches (fun _ => reaches_mono (by simp)) hclear
    have hclear'' : Clear scope.fragments scope.bindings visited rest :=
      clear_of_reaches (fun _ => reaches_mono (by simp)) hclear
    rw [collect, collectOne_of_clear hf hclear' hone hfirst,
      collect_of_clear hf hclear'' hrest hmore]
    rfl
termination_by (unvisited scope.fragments visited, sizeOf selections)

theorem collectOne_of_clear
    (hf : Table.Related (FragmentInlined scope.fragments) scope.fragments fragments')
    {container : ObjectType ρ} {depth : Nat} {visited visited' : List String}
    {selection selection' : Selection} {nodes : List FieldNode}
    (hclear : Clear scope.fragments scope.bindings visited [selection])
    (hs : Inlined scope.fragments selection selection')
    (h : collectOne (scope.withFragments fragments') container depth visited' selection' =
      .ok nodes) :
    collectOne scope container depth visited selection = .ok nodes := by
  match selection, hs with
  | .field head inner, .field hinner =>
    rcases exists_of_collectOne_field h with ⟨hi, rfl⟩ | ⟨hi, node, hn, rfl⟩
    · exact collectOne_of_excluded _ (.field head _) hi
    · have hclear' : Clear scope.fragments scope.bindings visited inner :=
        clear_of_reaches (fun _ => reaches_field (ne_of_included hi)) hclear
      rw [collectOne_field_of_included scope hi]
      exact congrArg (Except.map _) (fieldNode_of_collect (scope.withFragments fragments') scope
        rfl rfl (exists_of_fieldNode hn).1 (isEmpty_of_inlinedAll hinner).symm
        (fun _ _ => collect_of_clear hf hclear' hinner) hn)
  | .inline head inner, .inline hinner =>
    rcases exists_of_collectOne_inline h with ⟨hi, rfl⟩ | ⟨hi, hc, hn⟩
    · exact collectOne_of_excluded _ (.inline head _) hi
    · have hclear' : Clear scope.fragments scope.bindings visited inner :=
        clear_of_reaches (fun _ => reaches_inline (ne_of_included hi)) hclear
      rw [collectOne_inline_of_eq scope hi hc]
      exact collect_of_clear hf hclear' hinner hn
  | .spread spread, .kept =>
    rcases exists_of_collectOne_spread h with ⟨hi, rfl⟩ | ⟨hi, -, fragment', hget', hc, hn⟩
    · exact collectOne_of_excluded _ (.spread spread) hi
    · obtain ⟨fragment, hget, hr⟩ := Table.exists_left_of_related hf hget'
      have hnot : visited.contains spread.name = false := not_contains_of_clear hi hclear
      rw [collectOne_spread_of_get? scope hi hnot hget (hr.condition.symm.trans hc)]
      exact collect_of_clear hf (clear_of_spread (ne_of_included hi) hget hclear) hr.selections hn
  | .spread spread, .replaced hget =>
    rcases exists_of_collectOne_inline h with ⟨hi, rfl⟩ | ⟨hi, hc, hn⟩
    · exact collectOne_of_excluded _ (.spread spread) hi
    · have hnot : visited.contains spread.name = false := not_contains_of_clear hi hclear
      rw [collectOne_spread_of_get? scope hi hnot hget (hc _ rfl)]
      exact collect_of_clear hf (clear_of_spread (ne_of_included hi) hget hclear)
        (inlinedAll_refl _) hn
termination_by (unvisited scope.fragments visited, sizeOf selection)
decreasing_by
  · exact Prod.Lex.right _ (Nat.lt_of_succ_lt sizeOf_lt_field)
  · exact Prod.Lex.right _ sizeOf_lt_inline
  · exact Prod.Lex.left _ _ (unvisited_cons_lt hget hnot)
  · exact Prod.Lex.left _ _ (unvisited_cons_lt hget hnot)

end

/-- The operation selects the same. -/
theorem selected_iff_of_inlined (scope : Scope ρ)
    (hf : Table.Related (FragmentInlined scope.fragments) scope.fragments fragments')
    {container : ObjectType ρ} {depth : Nat} {selections selections' : List Selection}
    {nodes : List FieldNode} (hs : InlinedAll scope.fragments selections selections') :
    selected (scope.withFragments fragments') container depth [] selections' = .ok nodes ↔
      selected scope container depth [] selections = .ok nodes := by
  constructor
  · intro h
    obtain ⟨collected, hc, hm⟩ := exists_of_bind_ok h
    have hclear : Clear scope.fragments scope.bindings [] selections := by
      intro name hr
      refine ⟨List.not_mem_nil, fun fragment hget => ?_⟩
      obtain ⟨fragment', hget', hn⟩ := acyclic_of_collect hf hs hc hr
      rw [hget, Option.some.injEq] at hget'
      subst hget'
      exact hn
    rw [selected, collect_of_clear hf hclear hs hc]
    exact hm
  · intro h
    obtain ⟨collected, hc, hm⟩ := exists_of_bind_ok h
    rw [selected, collect_of_inlined hf (List.Subset.refl _) hs hc]
    exact hm

section Document

variable {schema : Schema ρ} {limit : Nat} {document document' : Document}
  {name label : Option String} {supplied : Table Json} {operations operations' : Operations}

theorem chosen_named (operations : Table Operation) (name : String) :
    chosen (.named operations) (some name) = (operations.get? name).elim
      (.error (.operationUnknown name)) fun operation => .ok (some name, operation) := by
  rw [chosen]
  cases operations.get? name <;> rfl

/-- The operation that is meant stays in its place. -/
theorem chosen_of_inlined {fragments : Table Fragment}
    (h : OperationsInlined fragments operations operations') (name : Option String) :
    (∃ label operation operation', chosen operations name = .ok (label, operation) ∧
      chosen operations' name = .ok (label, operation') ∧
      OperationInlined fragments operation operation') ∨
    ∃ e, chosen operations name = .error e ∧ chosen operations' name = .error e := by
  cases h with
  | single h => exact .inl ⟨_, _, _, rfl, rfl, h⟩
  | @named operations operations' h =>
    cases name with
    | none =>
      cases h with
      | nil => exact .inr ⟨_, rfl, rfl⟩
      | @cons pair pair' rest rest' hone hrest =>
        obtain ⟨key, operation⟩ := pair
        obtain ⟨key', operation'⟩ := pair'
        obtain ⟨rfl, hone⟩ := hone
        cases hrest with
        | nil => exact .inl ⟨_, _, _, rfl, rfl, hone⟩
        | cons _ _ => exact .inr ⟨_, rfl, rfl⟩
    | some name =>
      rw [chosen_named, chosen_named]
      have hr := Table.related_get? h name
      generalize operations.get? name = found, operations'.get? name = found' at hr
      cases hr with
      | some hr => exact .inl ⟨_, _, _, rfl, rfl, hr⟩
      | none => exact .inr ⟨_, rfl, rfl⟩

/-- What is settled about a document before its selections stays as it is. -/
theorem starts_congr {operation operation' : Operation} {root : String} {container : ObjectType ρ}
    {bindings : Bindings} (hp : operation'.position = operation.position)
    (ht : operation'.type = operation.type) (hd : operation'.declarations = operation.declarations)
    (hc : chosen document'.operations name = .ok (label, operation'))
    (h : Starts schema document name supplied label operation root container bindings) :
    Starts schema document' name supplied label operation' root container bindings where
  chosen := hc
  rootName := by
    rw [Plan.rootName, ht, hp]
    exact h.rootName
  container := h.container
  bindings := by
    rw [hd]
    exact h.bindings

theorem ofDocument_iff_of_starts {operation operation' : Operation} {root : String}
    {container : ObjectType ρ} {bindings : Bindings} {plan : Plan} (h : document.Inlined document')
    (ho : OperationInlined document.fragments operation operation')
    (hs : Starts schema document name supplied label operation root container bindings)
    (hs' : Starts schema document' name supplied label operation' root container bindings) :
    ofDocument schema limit document' name supplied = .ok plan ↔
      ofDocument schema limit document name supplied = .ok plan := by
  rw [ofDocument_of_starts hs, ofDocument_of_starts hs', map_ok_iff, map_ok_iff, ho.type]
  exact exists_congr fun _ => and_congr_left' (selected_iff_of_inlined
    ⟨schema, document.fragments, bindings, limit⟩ h.fragments ho.selections)

/-- A document has a plan if and only if it has one with inline fragments in the place of spreads,
and then it is the same plan. -/
theorem inlining_keeps_plans (h : document.Inlined document') (plan : Plan) :
    ofDocument schema limit document' name supplied = .ok plan ↔
      ofDocument schema limit document name supplied = .ok plan := by
  rcases chosen_of_inlined h.operations name with
    ⟨label, operation, operation', hc, hc', ho⟩ | ⟨e, hc, hc'⟩
  · constructor
    · intro hplan
      obtain ⟨_, _, _, hs', -, -⟩ := exists_starts_of_ofDocument hplan
      cases hc'.symm.trans hs'.chosen
      have hs := starts_congr ho.position.symm ho.type.symm ho.declarations.symm hc hs'
      exact (ofDocument_iff_of_starts h ho hs hs').mp hplan
    · intro hplan
      obtain ⟨_, _, _, hs, -, -⟩ := exists_starts_of_ofDocument hplan
      cases hc.symm.trans hs.chosen
      have hs' := starts_congr ho.position ho.type ho.declarations hc' hs
      exact (ofDocument_iff_of_starts h ho hs hs').mpr hplan
  · rw [ofDocument, ofDocument, hc, hc']
    exact Iff.rfl

end Document

end GraphGate.Plan

namespace GraphGate.Sample

open Query Plan

/-- The query `{ user(id: 7) { ... on User { name } } }`, with the fragment still there. -/
def inlineDocument : Document where
  operations := .single ⟨⟨1, 1⟩, .query, [], [.field
    ⟨⟨1, 3⟩, none, "user", [⟨"id", ⟨1, 12⟩, .number (.int 7)⟩], []⟩
    [.inline ⟨⟨1, 17⟩, some userName.condition, []⟩ userName.selections]]⟩
  fragments := spreadDocument.fragments

theorem spreadDocument_inlined : spreadDocument.Inlined inlineDocument where
  operations := .single ⟨rfl, rfl, rfl, .cons (.field (.cons (.replaced rfl) .nil)) .nil⟩
  fragments := fragmentsInlined_refl

theorem inlining_keeps_plans_spread :
    spreadDocument.Inlined inlineDocument ∧ ∀ plan,
      (ofDocument schema 64 inlineDocument none [] = .ok plan ↔
        ofDocument schema 64 spreadDocument none [] = .ok plan) :=
  ⟨spreadDocument_inlined, inlining_keeps_plans spreadDocument_inlined⟩

end GraphGate.Sample
