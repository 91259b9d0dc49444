import GraphGate.Proofs.Plan.Variables

/-! Directives are settled before anything else about a selection: one that they keep out may be
left out, or hold anything else, and those that are let in need their directives no longer. -/
namespace GraphGate

namespace Query

open Plan (Bindings included)

/-- Whether directives keep a selection out. -/
def excluded (values : Bindings) (directives : List Directive) : Bool :=
  match included values directives with
  | .ok false => true
  | _ => false

theorem excluded_iff {values : Bindings} {directives : List Directive} :
    excluded values directives = true ↔ included values directives = .ok false := by
  unfold excluded
  split
  · next h => exact iff_of_true rfl h
  · next h => exact iff_of_false Bool.false_ne_true h

mutual

/-- A selection without its directives, with what they keep out below it left out. -/
def Selection.pruned (values : Bindings) : Selection → Selection
  | .field head inner => .field { head with directives := [] } (prunedAll values inner)
  | .spread spread => .spread { spread with directives := [] }
  | .inline head inner => .inline { head with directives := [] } (prunedAll values inner)

/-- The selections that are let in. -/
def prunedAll (values : Bindings) : List Selection → List Selection
  | [] => []
  | selection :: rest =>
    if excluded values selection.directives then prunedAll values rest
    else selection.pruned values :: prunedAll values rest

end

mutual

/-- No field that stays loses all that is selected below it. -/
def Selection.NoneEmptied (values : Bindings) : Selection → Prop
  | .field _ inner => (inner ≠ [] → prunedAll values inner ≠ []) ∧ NoneEmptiedIn values inner
  | .spread _ => True
  | .inline _ inner => NoneEmptiedIn values inner

def NoneEmptiedIn (values : Bindings) : List Selection → Prop
  | [] => True
  | selection :: rest =>
    (excluded values selection.directives = false → selection.NoneEmptied values) ∧
      NoneEmptiedIn values rest

end

mutual

/-- The same selection with something else in what is kept out below it. -/
inductive Overwritten (values : Bindings) : Selection → Selection → Prop
  | field {head : FieldHead} {inner inner' : List Selection}
    (h : OverwrittenAll values inner inner') :
    Overwritten values (.field head inner) (.field head inner')
  | spread {spread : Spread} : Overwritten values (.spread spread) (.spread spread)
  | inline {head : InlineHead} {inner inner' : List Selection}
    (h : OverwrittenAll values inner inner') :
    Overwritten values (.inline head inner) (.inline head inner')

/-- Selections of which those kept out have given way to others with the same directives. -/
inductive OverwrittenAll (values : Bindings) : List Selection → List Selection → Prop
  | nil : OverwrittenAll values [] []
  | kept {selection selection' : Selection} {rest rest' : List Selection}
    (h : Overwritten values selection selection') (hs : OverwrittenAll values rest rest') :
    OverwrittenAll values (selection :: rest) (selection' :: rest')
  | replaced {selection selection' : Selection} {rest rest' : List Selection}
    (hi : included values selection.directives = .ok false)
    (hd : selection'.directives = selection.directives) (hs : OverwrittenAll values rest rest') :
    OverwrittenAll values (selection :: rest) (selection' :: rest')

end

structure FragmentOverwritten (values : Bindings) (fragment fragment' : Fragment) : Prop where
  condition : fragment'.condition = fragment.condition
  selections : OverwrittenAll values fragment.selections fragment'.selections

def Operation.pruned (values : Bindings) (operation : Operation) : Operation :=
  { operation with selections := prunedAll values operation.selections }

def Fragment.pruned (values : Bindings) (fragment : Fragment) : Fragment :=
  { fragment with selections := prunedAll values fragment.selections }

namespace Document

/-- A document without directives: what they keep out, in an operation and in all fragments, is left
out. -/
def pruned (label : Option String) (values : Bindings) (document : Document) : Document where
  operations := document.operations.update label (·.pruned values)
  fragments := Table.mapValues (fun _ fragment => fragment.pruned values) document.fragments

/-- A document with other selections in an operation, and with other fragments. -/
def overwrite (label : Option String) (selections : List Selection) (fragments : Table Fragment)
    (document : Document) : Document where
  operations := document.operations.update label fun operation => { operation with selections }
  fragments := fragments

end Document

mutual

/-- What pruned selections and overwritten ones have in common: with those that are let in, the
directives may change as long as they still let them in. -/
inductive Reduces (values : Bindings) : Selection → Selection → Prop
  | field {head : FieldHead} {directives : List Directive} {inner inner' : List Selection}
    (hd : ∀ wanted, included values head.directives = .ok wanted →
      included values directives = .ok wanted)
    (he : inner'.isEmpty = inner.isEmpty) (h : ReducesAll values inner inner') :
    Reduces values (.field head inner) (.field { head with directives } inner')
  | spread {spread : Spread} {directives : List Directive}
    (hd : ∀ wanted, included values spread.directives = .ok wanted →
      included values directives = .ok wanted) :
    Reduces values (.spread spread) (.spread { spread with directives })
  | inline {head : InlineHead} {directives : List Directive} {inner inner' : List Selection}
    (hd : ∀ wanted, included values head.directives = .ok wanted →
      included values directives = .ok wanted) (h : ReducesAll values inner inner') :
    Reduces values (.inline head inner) (.inline { head with directives } inner')

/-- Those that are kept out may go, or stay as others that are kept out. -/
inductive ReducesAll (values : Bindings) : List Selection → List Selection → Prop
  | nil : ReducesAll values [] []
  | kept {selection selection' : Selection} {rest rest' : List Selection}
    (h : Reduces values selection selection') (hs : ReducesAll values rest rest') :
    ReducesAll values (selection :: rest) (selection' :: rest')
  | dropped {selection : Selection} {rest rest' : List Selection}
    (hi : included values selection.directives = .ok false) (hs : ReducesAll values rest rest') :
    ReducesAll values (selection :: rest) rest'
  | replaced {selection selection' : Selection} {rest rest' : List Selection}
    (hi : included values selection.directives = .ok false)
    (hi' : included values selection'.directives = .ok false) (hs : ReducesAll values rest rest') :
    ReducesAll values (selection :: rest) (selection' :: rest')

end

structure FragmentReduces (values : Bindings) (fragment fragment' : Fragment) : Prop where
  condition : fragment'.condition = fragment.condition
  selections : ReducesAll values fragment.selections fragment'.selections

variable {values : Bindings}

theorem included_nil_of_not_excluded {directives : List Directive}
    (hx : excluded values directives = false) (wanted : Bool)
    (h : included values directives = .ok wanted) : included values [] = .ok wanted := by
  cases wanted with
  | true => rfl
  | false =>
    rw [excluded_iff.mpr h] at hx
    cases hx

theorem isEmpty_prunedAll {inner : List Selection}
    (h : inner ≠ [] → prunedAll values inner ≠ []) :
    (prunedAll values inner).isEmpty = inner.isEmpty := by
  cases inner with
  | nil => rw [prunedAll]
  | cons selection rest =>
    have hne : prunedAll values (selection :: rest) ≠ [] := h (List.cons_ne_nil _ _)
    rw [List.isEmpty_cons, List.isEmpty_eq_false_iff]
    exact hne

mutual

theorem reduces_pruned : ∀ {selection : Selection},
    excluded values selection.directives = false → selection.NoneEmptied values →
      Reduces values selection (selection.pruned values)
  | .field head inner, hx, hn => by
    rw [Selection.NoneEmptied] at hn
    rw [Selection.pruned]
    exact .field (included_nil_of_not_excluded hx) (isEmpty_prunedAll hn.1)
      (reducesAll_pruned hn.2)
  | .spread spread, hx, _ => by
    rw [Selection.pruned]
    exact .spread (included_nil_of_not_excluded hx)
  | .inline head inner, hx, hn => by
    rw [Selection.NoneEmptied] at hn
    rw [Selection.pruned]
    exact .inline (included_nil_of_not_excluded hx) (reducesAll_pruned hn)

theorem reducesAll_pruned : ∀ {selections : List Selection}, NoneEmptiedIn values selections →
    ReducesAll values selections (prunedAll values selections)
  | [], _ => by
    rw [prunedAll]
    exact .nil
  | selection :: rest, hn => by
    rw [NoneEmptiedIn] at hn
    rw [prunedAll]
    split
    · next hx => exact .dropped (excluded_iff.mp hx) (reducesAll_pruned hn.2)
    · next hx =>
      have hx := Bool.eq_false_of_not_eq_true hx
      exact .kept (reduces_pruned hx (hn.1 hx)) (reducesAll_pruned hn.2)

end

theorem isEmpty_of_overwrittenAll {selections selections' : List Selection}
    (h : OverwrittenAll values selections selections') :
    selections'.isEmpty = selections.isEmpty := by
  cases h <;> rfl

mutual

theorem reduces_of_overwritten : ∀ {selection selection' : Selection},
    Overwritten values selection selection' → Reduces values selection selection'
  | _, _, .field h =>
    .field (fun _ => id) (isEmpty_of_overwrittenAll h) (reducesAll_of_overwrittenAll h)
  | _, _, .spread => .spread fun _ => id
  | _, _, .inline h => .inline (fun _ => id) (reducesAll_of_overwrittenAll h)

theorem reducesAll_of_overwrittenAll : ∀ {selections selections' : List Selection},
    OverwrittenAll values selections selections' → ReducesAll values selections selections'
  | _, _, .nil => .nil
  | _, _, .kept h hs => .kept (reduces_of_overwritten h) (reducesAll_of_overwrittenAll hs)
  | _, _, .replaced hi hd hs => .replaced hi (hd ▸ hi) (reducesAll_of_overwrittenAll hs)

end

end Query

namespace Plan

open Query

variable {ρ : Type} {scope : Scope ρ} {fragments' : Table Fragment}

/-- A field does not look at its directives. -/
theorem fieldNode_directives (scope : Scope ρ) {container : ObjectType ρ} {depth : Nat}
    {visited : List String} {head : FieldHead} {directives : List Directive}
    {selections : List Selection} :
    fieldNode scope container depth visited { head with directives } selections =
      fieldNode scope container depth visited head selections :=
  fieldNode_congr scope scope rfl rfl rfl rfl rfl rfl rfl (fun _ => rfl) fun _ => rfl

mutual

/-- What is collected does not depend on what directives keep out, nor on the directives of what
they let in. -/
theorem collect_of_reduces
    (hf : Table.Related (FragmentReduces scope.bindings) scope.fragments fragments')
    {container : ObjectType ρ} {depth : Nat} {visited : List String}
    {selections selections' : List Selection} {nodes : List FieldNode}
    (hs : ReducesAll scope.bindings selections selections')
    (h : collect scope container depth visited selections = .ok nodes) :
    collect (scope.withFragments fragments') container depth visited selections' = .ok nodes := by
  match selections, hs with
  | [], .nil =>
    rw [collect_nil] at h ⊢
    exact h
  | selection :: rest, .kept hone hrest =>
    obtain ⟨first, more, hfirst, hmore, rfl⟩ := exists_of_collect_cons h
    rw [collect, collectOne_of_reduces hf hone hfirst, collect_of_reduces hf hrest hmore]
    rfl
  | selection :: rest, .dropped hi hrest =>
    -- What is kept out has given nothing, whatever is in it, and nothing of it was looked at.
    obtain ⟨first, more, hfirst, hmore, rfl⟩ := exists_of_collect_cons h
    rw [collectOne_of_excluded scope selection hi] at hfirst
    cases hfirst
    exact collect_of_reduces hf hrest hmore
  | selection :: rest, .replaced hi hi' hrest =>
    obtain ⟨first, more, hfirst, hmore, rfl⟩ := exists_of_collect_cons h
    rw [collectOne_of_excluded scope selection hi] at hfirst
    cases hfirst
    rw [collect, collectOne_of_excluded (scope.withFragments fragments') _ hi',
      collect_of_reduces hf hrest hmore]
    rfl
termination_by (unvisited scope.fragments visited, sizeOf selections)

theorem collectOne_of_reduces
    (hf : Table.Related (FragmentReduces scope.bindings) scope.fragments fragments')
    {container : ObjectType ρ} {depth : Nat} {visited : List String}
    {selection selection' : Selection} {nodes : List FieldNode}
    (hs : Reduces scope.bindings selection selection')
    (h : collectOne scope container depth visited selection = .ok nodes) :
    collectOne (scope.withFragments fragments') container depth visited selection' =
      .ok nodes := by
  match selection, hs with
  | .field head inner, @Reduces.field _ _ directives _ inner' hd he hinner =>
    rcases exists_of_collectOne_field h with ⟨hi, rfl⟩ | ⟨hi, node, hn, rfl⟩
    · exact collectOne_of_excluded _ (.field { head with directives } inner') (hd _ hi)
    · have hlet : included (scope.withFragments fragments').bindings
          { head with directives : FieldHead }.directives = .ok true := hd _ hi
      rw [collectOne_field_of_included (scope.withFragments fragments') hlet, fieldNode_directives]
      exact congrArg (Except.map _) (fieldNode_of_collect scope (scope.withFragments fragments')
        rfl rfl (exists_of_fieldNode hn).1 he (fun _ _ => collect_of_reduces hf hinner) hn)
  | .inline head inner, @Reduces.inline _ _ directives _ inner' hd hinner =>
    rcases exists_of_collectOne_inline h with ⟨hi, rfl⟩ | ⟨hi, hc, hn⟩
    · exact collectOne_of_excluded _ (.inline { head with directives } inner') (hd _ hi)
    · have hlet : included (scope.withFragments fragments').bindings
          { head with directives : InlineHead }.directives = .ok true := hd _ hi
      rw [collectOne_inline_of_eq (scope.withFragments fragments') hlet hc]
      exact collect_of_reduces hf hinner hn
  | .spread spread, @Reduces.spread _ _ directives hd =>
    rcases exists_of_collectOne_spread h with ⟨hi, rfl⟩ | ⟨hi, hnot, fragment, hget, hc, hn⟩
    · exact collectOne_of_excluded _ (.spread { spread with directives }) (hd _ hi)
    · obtain ⟨fragment', hget', hr⟩ := Table.exists_right_of_related hf hget
      have hlet : included (scope.withFragments fragments').bindings
          { spread with directives : Spread }.directives = .ok true := hd _ hi
      rw [collectOne_spread_of_get? (scope.withFragments fragments') hlet hnot hget'
        (hr.condition.trans hc)]
      exact collect_of_reduces hf hr.selections hn
termination_by (unvisited scope.fragments visited, sizeOf selection)
decreasing_by
  · exact Prod.Lex.right _ (Nat.lt_of_succ_lt sizeOf_lt_field)
  · exact Prod.Lex.right _ sizeOf_lt_inline
  · exact Prod.Lex.left _ _ (unvisited_cons_lt hget hnot)

end

section Document

variable {schema : Schema ρ} {limit : Nat} {document document' : Document}
  {name label : Option String} {supplied : Table Json} {operation operation' : Operation}
  {values : Bindings} {plan : Plan}

/-- A plan stays where the operation that is meant and the fragments are reduced. -/
theorem ofDocument_of_reduces (hc : chosen document.operations name = .ok (label, operation))
    (hb : bindings schema supplied operation.declarations = .ok values)
    (hc' : chosen document'.operations name = .ok (label, operation'))
    (hp : operation'.position = operation.position) (ht : operation'.type = operation.type)
    (hd : operation'.declarations = operation.declarations)
    (hs : ReducesAll values operation.selections operation'.selections)
    (hf : Table.Related (FragmentReduces values) document.fragments document'.fragments)
    (h : ofDocument schema limit document name supplied = .ok plan) :
    ofDocument schema limit document' name supplied = .ok plan := by
  obtain ⟨chosenOperation, container, found, hstarts, hoperation, hselected⟩ :=
    exists_starts_of_ofDocument h
  obtain ⟨rfl, rfl⟩ := Prod.mk.inj (Except.ok.inj (hc.symm.trans hstarts.chosen))
  obtain rfl := Except.ok.inj (hb.symm.trans hstarts.bindings)
  obtain ⟨nodes, hcollect, hmerged⟩ := exists_of_bind_ok hselected
  have hcollect' : collect ⟨schema, document'.fragments, values, limit⟩ container 1 []
      operation'.selections = .ok nodes := collect_of_reduces hf hs hcollect
  have hselected' : selected ⟨schema, document'.fragments, values, limit⟩ container 1 []
      operation'.selections = .ok plan.fields := by
    rw [selected, hcollect']
    exact hmerged
  rw [ofDocument_of_starts (starts_congr hp ht hd hc' hstarts), hselected', ht, ← hoperation]
  rfl

/-- A plan that there is stays where what directives keep out is left out, in the operation and in
all fragments, and the directives are taken away, as long as no field is emptied by it. And it stays
where anything else stands in what they keep out, under the same directives. -/
theorem pruning_keeps_plans (hc : chosen document.operations name = .ok (label, operation))
    (hb : bindings schema supplied operation.declarations = .ok values)
    (h : ofDocument schema limit document name supplied = .ok plan) :
    (NoneEmptiedIn values operation.selections →
      (∀ pair ∈ document.fragments, NoneEmptiedIn values pair.2.selections) →
      ofDocument schema limit (document.pruned label values) name supplied = .ok plan) ∧
    ∀ selections fragments, OverwrittenAll values operation.selections selections →
      Table.Related (FragmentOverwritten values) document.fragments fragments →
      ofDocument schema limit (document.overwrite label selections fragments) name supplied =
        .ok plan := by
  constructor
  · intro hn hnf
    have hf : Table.Related (FragmentReduces values) document.fragments
        (Table.mapValues (fun _ fragment => fragment.pruned values) document.fragments) :=
      Table.related_mapValues fun pair hm => ⟨rfl, reducesAll_pruned (hnf pair hm)⟩
    exact ofDocument_of_reduces hc hb (chosen_update hc) rfl rfl rfl (reducesAll_pruned hn) hf h
  · intro selections fragments hs hfo
    have hf : Table.Related (FragmentReduces values) document.fragments fragments :=
      hfo.imp fun _ _ ho => ⟨ho.1, ho.2.condition, reducesAll_of_overwrittenAll ho.2.selections⟩
    exact ofDocument_of_reduces hc hb (chosen_update hc) rfl rfl rfl
      (reducesAll_of_overwrittenAll hs) hf h

end Document

end Plan

end GraphGate

namespace GraphGate.Sample

open Query Plan

def condition (name : String) (position : Position) (value : Literal) : Directive :=
  ⟨position, name, [⟨"if", position, value⟩]⟩

/-- The fragment `fragment Loop on User { ...Loop }`. -/
def loop : Fragment := ⟨⟨2, 1⟩, "User", [.spread ⟨⟨2, 25⟩, "Loop", []⟩]⟩

/-- The query `query Find($full: Boolean = false) { find(ids: 7) { name } }` beside that fragment,
with directives at the outer field and something more within it. -/
def findName (directives : List Directive) (more : List Selection) : Document where
  operations := .named [("Find", {
    position := ⟨1, 1⟩
    type := .query
    declarations := [⟨⟨1, 13⟩, "full", .named "Boolean" true, some (.bool false)⟩]
    selections := [.field ⟨⟨1, 40⟩, none, "find", [⟨"ids", ⟨1, 50⟩, .number (.int 7)⟩], directives⟩
      (.field ⟨⟨1, 60⟩, none, "name", [], []⟩ [] :: more)] })]
  fragments := [("Loop", loop)]

def letIn : List Directive := [condition "include" ⟨1, 53⟩ (.bool true)]

def keptOut : List Directive := [condition "skip" ⟨1, 99⟩ (.bool true)]

def spreadLoop : Selection := .spread ⟨⟨1, 65⟩, "Loop", [condition "include" ⟨1, 73⟩ (.var "full")]⟩

/-- With a fragment that spreads itself and a field that there is not, both of them kept out. -/
def prunableDocument : Document := findName letIn
  [spreadLoop, .field ⟨⟨1, 92⟩, none, "secret", [], keptOut⟩ []]

/-- With a fragment that there is not in the place of that field. -/
def overwrittenDocument : Document := findName letIn
  [spreadLoop, .spread ⟨⟨1, 92⟩, "Nowhere", keptOut⟩]

def findPlan : Plan where
  name := some "Find"
  operation := .query
  root := "Query"
  fields := [⟨none, "find", [("ids", .arr [.str "7"])], [⟨none, "name", [], [], ⟨1, 60⟩⟩], ⟨1, 40⟩⟩]

theorem ofDocument_prunableDocument :
    ofDocument findingSchema 64 prunableDocument none [] = .ok findPlan := by cbv

theorem pruning_keeps_plans_prunable :
    ofDocument findingSchema 64 (findName [] []) none [] = .ok findPlan ∧
      ofDocument findingSchema 64 overwrittenDocument none [] = .ok findPlan := by
  have hb : bindings findingSchema []
      [⟨⟨1, 13⟩, "full", .named "Boolean" true, some (.bool false)⟩] =
      .ok [("full", some (.bool false))] := by cbv
  obtain ⟨hpruned, hoverwritten⟩ := pruning_keeps_plans rfl hb ofDocument_prunableDocument
  constructor
  · refine hpruned ?_ ?_
    · simp only [NoneEmptiedIn, Selection.NoneEmptied]
      exact ⟨fun _ => ⟨fun _ => List.cons_ne_nil _ _, by simp [spreadLoop, Selection.NoneEmptied]⟩,
        trivial⟩
    · simp [prunableDocument, findName, loop, NoneEmptiedIn, Selection.NoneEmptied]
  · refine hoverwritten _ _ ?_ ?_
    · exact .kept (.field (.kept (.field .nil) (.kept .spread (.replaced rfl rfl .nil)))) .nil
    · exact .cons ⟨rfl, rfl, .kept .spread .nil⟩ .nil

end GraphGate.Sample
