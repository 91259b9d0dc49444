import GraphGate.Proofs.Plan.Inlining

/-! A plan depends on the operation that is meant, on the fragments that it reaches and on the
variables that it declares; nothing else in a document or a request makes a difference. -/
namespace GraphGate

namespace Plan

open Query

variable {ρ : Type} {schema : Schema ρ} {scope : Scope ρ} {fragments' : Table Fragment}

/-- All fragments that selections reach are the same in another table. -/
def Shares (scope : Scope ρ) (fragments' : Table Fragment) (selections : List Selection) : Prop :=
  ∀ name, Reaches scope.fragments scope.bindings selections name →
    fragments'.get? name = scope.fragments.get? name

theorem shares_of_reaches {selections selections' : List Selection}
    (hr : ∀ name, Reaches scope.fragments scope.bindings selections' name →
      Reaches scope.fragments scope.bindings selections name)
    (h : Shares scope fragments' selections) : Shares scope fragments' selections' :=
  fun name hn => h name (hr name hn)

mutual

/-- Only the fragments that are reached have a part in what is collected. -/
theorem collect_of_shares {container : ObjectType ρ} {depth : Nat} {visited : List String}
    {selections : List Selection} (h : Shares scope fragments' selections) :
    collect (scope.withFragments fragments') container depth visited selections =
      collect scope container depth visited selections := by
  match selections with
  | [] => rw [collect_nil, collect_nil]
  | selection :: rest =>
    have hfirst : Shares scope fragments' [selection] :=
      shares_of_reaches (fun _ => reaches_mono (by simp)) h
    have hrest : Shares scope fragments' rest :=
      shares_of_reaches (fun _ => reaches_mono (by simp)) h
    rw [collect, collect, collectOne_of_shares hfirst, collect_of_shares hrest]
termination_by (unvisited scope.fragments visited, sizeOf selections)

theorem collectOne_of_shares {container : ObjectType ρ} {depth : Nat} {visited : List String}
    {selection : Selection} (h : Shares scope fragments' [selection]) :
    collectOne (scope.withFragments fragments') container depth visited selection =
      collectOne scope container depth visited selection := by
  have hb : (scope.withFragments fragments').bindings = scope.bindings := rfl
  by_cases hi : included scope.bindings selection.directives = .ok false
  · rw [collectOne_of_excluded (scope.withFragments fragments') selection hi,
      collectOne_of_excluded scope selection hi]
  · match selection with
    | .field head selections =>
      have hinner : Shares scope fragments' selections :=
        shares_of_reaches (fun _ => reaches_field hi) h
      rw [collectOne_field, collectOne_field, hb,
        fieldNode_congr scope (scope.withFragments fragments') rfl rfl rfl rfl rfl rfl rfl
          (fun _ => rfl) fun _ => collect_of_shares hinner]
    | .inline head selections =>
      have hinner : Shares scope fragments' selections :=
        shares_of_reaches (fun _ => reaches_inline hi) h
      rw [collectOne_inline, collectOne_inline, hb, collect_of_shares hinner]
    | .spread spread =>
      have hget : fragments'.get? spread.name = scope.fragments.get? spread.name :=
        h _ (.direct (.here (by simp) hi))
      have hf : (scope.withFragments fragments').fragments = fragments' := rfl
      rw [collectOne_spread, collectOne_spread, hb, hf, hget]
      cases hv : visited.contains spread.name with
      | true => rfl
      | false =>
        cases hs : scope.fragments.get? spread.name with
        | none => rfl
        | some fragment =>
          have hinner : Shares scope fragments' fragment.selections :=
            shares_of_reaches (fun _ => reaches_spread hi hs) h
          have hc : collect (scope.withFragments fragments') container depth
              (spread.name :: visited) fragment.selections =
              collect scope container depth (spread.name :: visited) fragment.selections :=
            collect_of_shares hinner
          simp only [hc]
termination_by (unvisited scope.fragments visited, sizeOf selection)
decreasing_by
  · exact Prod.Lex.right _ (Nat.lt_of_succ_lt sizeOf_lt_field)
  · exact Prod.Lex.right _ sizeOf_lt_inline
  · exact Prod.Lex.left _ _ (unvisited_cons_lt hs hv)

end

variable {limit : Nat} {label : Option String} {operation : Operation}

/-- Once the operation is chosen, the other operations are not looked at. -/
theorem ofDocument_of_chosen {document : Document} {name : Option String} {supplied : Table Json}
    (h : chosen document.operations name = .ok (label, operation)) :
    ofDocument schema limit document name supplied =
      ofOperation schema limit document.fragments label operation supplied := by
  rw [ofDocument, h]
  rfl

/-- Values of variables that are not declared make no difference. -/
theorem bindings_congr {supplied supplied' : Table Json} {declarations : List VariableDefinition}
    (h : ∀ d ∈ declarations, supplied'.get? d.name = supplied.get? d.name) :
    bindings schema supplied' declarations = bindings schema supplied declarations := by
  have hpairs : variablePairs schema supplied' declarations =
      variablePairs schema supplied declarations := by
    induction declarations with
    | nil => rfl
    | cons d rest ih =>
      obtain ⟨hd, hrest⟩ := List.forall_mem_cons.mp h
      rw [variablePairs, variablePairs, variableValue, variableValue, hd, ih hrest]
  rw [bindings, bindings, hpairs]

/-- An operation has the same plan beside other fragments if those that it reaches, under the values
that its variables have, are the same there. -/
theorem ofOperation_congr {fragments fragments' : Table Fragment} {supplied supplied' : Table Json}
    (hf : ∀ values fragment, Reaches fragments values operation.selections fragment →
      fragments'.get? fragment = fragments.get? fragment)
    (hs : ∀ d ∈ operation.declarations, supplied'.get? d.name = supplied.get? d.name) :
    ofOperation schema limit fragments' label operation supplied' =
      ofOperation schema limit fragments label operation supplied := by
  have hsel : ∀ values container, selected ⟨schema, fragments', values, limit⟩ container 1 []
      operation.selections = selected ⟨schema, fragments, values, limit⟩ container 1 []
      operation.selections := by
    intro values container
    have hshares : Shares ⟨schema, fragments, values, limit⟩ fragments' operation.selections :=
      hf values
    have hc : collect ⟨schema, fragments', values, limit⟩ container 1 [] operation.selections =
        collect ⟨schema, fragments, values, limit⟩ container 1 [] operation.selections :=
      collect_of_shares hshares
    rw [selected, selected, hc]
  unfold ofOperation
  simp only [bindings_congr hs, hsel]

section Order

variable {operations operations' : Table Operation} {fragments fragments' : Table Fragment}

/-- In whatever order the operations of a document come, the same one is meant. -/
theorem chosen_of_perm (hp : operations.Perm operations') (hn : operations.names.Nodup)
    (name : Option String) :
    chosen (.named operations') name = chosen (.named operations) name := by
  cases name with
  | some name => rw [chosen_named, chosen_named, Table.get?_of_perm hp hn]
  | none =>
    match operations with
    | [] => rw [List.nil_perm.mp hp]
    | [only] => rw [List.singleton_perm.mp hp]
    | first :: second :: rest =>
      match operations', hp.length_eq with
      | first' :: second' :: rest', _ => rfl

end Order

/-- Requests that mean the same operation under the same name come to the same, be it a plan or a
reason why there is none, if the fragments that the operation reaches are the same and the variables
that it declares have the same values. Operations and fragments may come in any order. -/
theorem relevant_definitions_decide :
    (∀ {document document' : Document} {name name' : Option String}
      {supplied supplied' : Table Json} {label : Option String} {operation : Operation},
      chosen document.operations name = .ok (label, operation) →
      chosen document'.operations name' = .ok (label, operation) →
      (∀ values fragment, Reaches document.fragments values operation.selections fragment →
        Table.get? fragment document'.fragments = Table.get? fragment document.fragments) →
      (∀ d ∈ operation.declarations, supplied'.get? d.name = supplied.get? d.name) →
      ofDocument schema limit document' name' supplied' =
        ofDocument schema limit document name supplied) ∧
    ∀ {operations operations' : Table Operation} {fragments fragments' : Table Fragment},
      operations.Perm operations' → operations.names.Nodup →
      fragments.Perm fragments' → fragments.names.Nodup → ∀ name supplied,
        ofDocument schema limit ⟨.named operations', fragments'⟩ name supplied =
          ofDocument schema limit ⟨.named operations, fragments⟩ name supplied := by
  constructor
  · intro document document' name name' supplied supplied' label operation hc hc' hf hs
    rw [ofDocument_of_chosen hc, ofDocument_of_chosen hc', ofOperation_congr hf hs]
  · intro operations operations' fragments fragments' ho hn hf hm name supplied
    have hget : ∀ fragment, fragments'.get? fragment = fragments.get? fragment :=
      fun _ => Table.get?_of_perm hf hm
    have hc : chosen (.named operations') name = chosen (.named operations) name :=
      chosen_of_perm ho hn name
    rw [ofDocument, ofDocument, hc]
    congr 1
    funext named
    exact ofOperation_congr (fun _ fragment _ => hget fragment) fun _ _ => rfl

end Plan

end GraphGate

namespace GraphGate.Sample

open Query Plan

/-- The operation of the query `{ user(id: 7) { ...UserName } }`. -/
def spreadOperation : Operation := ⟨⟨1, 1⟩, .query, [], [.field
  ⟨⟨1, 3⟩, none, "user", [⟨"id", ⟨1, 12⟩, .number (.int 7)⟩], []⟩
  [.spread ⟨⟨1, 17⟩, "UserName", []⟩]]⟩

/-- The same operation beside another one, and beside a fragment that spreads itself. -/
def crowdedDocument : Document where
  operations := .named [("Watch", ⟨⟨9, 1⟩, .subscription, [], []⟩), ("Find", spreadOperation)]
  fragments := [("Loop", ⟨⟨8, 1⟩, "Nothing", [.spread ⟨⟨8, 28⟩, "Loop", []⟩]⟩),
    ("UserName", userName)]

theorem reaches_spreadOperation {values : Bindings} {fragment : String}
    (h : Reaches spreadDocument.fragments values spreadOperation.selections fragment) :
    fragment = "UserName" := by
  have hs : ∀ name, Spreads values spreadOperation.selections name → name = "UserName" := by
    rintro name (⟨hm, -⟩ | ⟨hm, -, h⟩ | ⟨hm, -, -⟩)
    · simp [spreadOperation] at hm
    · obtain ⟨-, rfl⟩ := Selection.field.inj (List.mem_singleton.mp hm)
      rcases h with (⟨hm, -⟩ | ⟨hm, -, -⟩ | ⟨hm, -, -⟩)
      · exact congrArg Spread.name (Selection.spread.inj (List.mem_singleton.mp hm))
      · simp at hm
      · simp at hm
    · simp [spreadOperation] at hm
  have hnone : ∀ name, ¬ Spreads values userName.selections name := by
    rintro name (⟨hm, -⟩ | ⟨hm, -, h⟩ | ⟨hm, -, -⟩)
    · simp [userName] at hm
    · obtain ⟨-, rfl⟩ := Selection.field.inj (List.mem_singleton.mp hm)
      exact not_spreads_nil h
    · simp [userName] at hm
  cases h with
  | direct h => exact hs _ h
  | through h hf hr =>
    rw [hs _ h] at hf
    cases hf
    cases hr with
    | direct h => exact absurd h (hnone _)
    | through h => exact absurd h (hnone _)

theorem relevant_definitions_decide_crowded :
    ofDocument schema 64 crowdedDocument (some "Find") [("spare", .null)] =
      ofDocument schema 64 spreadDocument (some "Find") [] := by
  have hc : chosen spreadDocument.operations (some "Find") = .ok (some "Find", spreadOperation) :=
    rfl
  refine relevant_definitions_decide.1 hc rfl ?_ (List.forall_mem_nil _)
  intro values fragment hr
  rw [reaches_spreadOperation hr]
  rfl

end GraphGate.Sample
