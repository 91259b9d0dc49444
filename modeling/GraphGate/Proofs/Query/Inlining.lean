import GraphGate.Proofs.Table
import GraphGate.Query.Document

/-! Documents in which inline fragments have taken the place of spreads: a spread may give way to
what its fragment holds, under the spread's own directives and at its position. -/
namespace GraphGate.Query

mutual

/-- A selection in which inline fragments have taken the place of some spreads. -/
inductive Inlined (fragments : Table Fragment) : Selection → Selection → Prop
  | field {head : FieldHead} {inner inner' : List Selection}
    (h : InlinedAll fragments inner inner') :
    Inlined fragments (.field head inner) (.field head inner')
  | inline {head : InlineHead} {inner inner' : List Selection}
    (h : InlinedAll fragments inner inner') :
    Inlined fragments (.inline head inner) (.inline head inner')
  | kept {spread : Spread} : Inlined fragments (.spread spread) (.spread spread)
  | replaced {spread : Spread} {fragment : Fragment}
    (hf : fragments.get? spread.name = some fragment) :
    Inlined fragments (.spread spread)
      (.inline ⟨spread.position, some fragment.condition, spread.directives⟩ fragment.selections)

inductive InlinedAll (fragments : Table Fragment) : List Selection → List Selection → Prop
  | nil : InlinedAll fragments [] []
  | cons {selection selection' : Selection} {rest rest' : List Selection}
    (h : Inlined fragments selection selection') (hs : InlinedAll fragments rest rest') :
    InlinedAll fragments (selection :: rest) (selection' :: rest')

end

structure FragmentInlined (fragments : Table Fragment) (fragment fragment' : Fragment) : Prop where
  position : fragment'.position = fragment.position
  condition : fragment'.condition = fragment.condition
  selections : InlinedAll fragments fragment.selections fragment'.selections

structure OperationInlined (fragments : Table Fragment) (operation operation' : Operation) :
    Prop where
  position : operation'.position = operation.position
  type : operation'.type = operation.type
  declarations : operation'.declarations = operation.declarations
  selections : InlinedAll fragments operation.selections operation'.selections

inductive OperationsInlined (fragments : Table Fragment) : Operations → Operations → Prop
  | single {operation operation' : Operation}
    (h : OperationInlined fragments operation operation') :
    OperationsInlined fragments (.single operation) (.single operation')
  | named {operations operations' : Table Operation}
    (h : Table.Related (OperationInlined fragments) operations operations') :
    OperationsInlined fragments (.named operations) (.named operations')

/-- A document in which some spreads, of operations and of fragments, have been replaced by what the
fragments hold. -/
structure Document.Inlined (document document' : Document) : Prop where
  operations : OperationsInlined document.fragments document.operations document'.operations
  fragments : Table.Related (FragmentInlined document.fragments) document.fragments
    document'.fragments

mutual

theorem inlined_refl {fragments : Table Fragment} : ∀ selection : Selection,
    Inlined fragments selection selection
  | .field _ inner => .field (inlinedAll_refl inner)
  | .spread _ => .kept
  | .inline _ inner => .inline (inlinedAll_refl inner)

theorem inlinedAll_refl {fragments : Table Fragment} : ∀ selections : List Selection,
    InlinedAll fragments selections selections
  | [] => .nil
  | selection :: rest => .cons (inlined_refl selection) (inlinedAll_refl rest)

end

theorem fragmentsInlined_refl {fragments fragments' : Table Fragment} :
    Table.Related (FragmentInlined fragments) fragments' fragments' :=
  Table.related_refl fun fragment => ⟨rfl, rfl, inlinedAll_refl fragment.selections⟩

variable {fragments : Table Fragment} {selections selections' : List Selection}

theorem exists_of_inlinedAll_of_mem (h : InlinedAll fragments selections selections')
    {selection : Selection} (hm : selection ∈ selections) :
    ∃ selection' ∈ selections', Inlined fragments selection selection' := by
  induction selections generalizing selections' with
  | nil => cases hm
  | cons first rest ih =>
    cases h with
    | cons h hs =>
      rcases List.mem_cons.mp hm with rfl | hm
      · exact ⟨_, by simp, h⟩
      · obtain ⟨selection', hm', h⟩ := ih hs hm
        exact ⟨selection', by simp [hm'], h⟩

theorem isEmpty_of_inlinedAll (h : InlinedAll fragments selections selections') :
    selections'.isEmpty = selections.isEmpty := by
  cases h <;> rfl

end GraphGate.Query
