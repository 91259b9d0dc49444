import GraphGate.Proofs.Plan.Collection
import GraphGate.Proofs.Plan.Spreading
import GraphGate.Proofs.Query.Inlining
import Mathlib.Data.Prod.Lex
import Mathlib.Order.WellFounded

/-! A collection that succeeds has gone into every fragment that its selections reach, each time
with less left to do; so none of these fragments reaches itself. -/
namespace GraphGate.Plan

open Query

variable {ρ : Type} {scope : Scope ρ} {fragments' : Table Fragment} {container : ObjectType ρ}
  {depth : Nat} {visited : List String} {selections selections' : List Selection}
  {nodes : List FieldNode} {name : String}

/-- The same scope with other fragments. -/
def Scope.withFragments (scope : Scope ρ) (fragments : Table Fragment) : Scope ρ :=
  { scope with fragments }

/-- What bounds the work left: the fragments not yet visited, then the size of the selections. -/
noncomputable def remaining (fragments : Table Fragment) (visited : List String)
    (selections : List Selection) : ℕ ×ₗ ℕ :=
  toLex (unvisited fragments visited, sizeOf selections)

theorem remaining_lt_of_sizeOf {fragments : Table Fragment}
    (h : sizeOf selections' < sizeOf selections) :
    remaining fragments visited selections' < remaining fragments visited selections :=
  Prod.Lex.toLex_lt_toLex.mpr (.inr ⟨rfl, h⟩)

theorem remaining_lt_of_unvisited {fragments : Table Fragment} {fragment : Fragment}
    (hf : fragments.get? name = some fragment) (hv : visited.contains name = false) :
    remaining fragments (name :: visited) selections' < remaining fragments visited selections :=
  Prod.Lex.toLex_lt_toLex.mpr (.inl (unvisited_cons_lt hf hv))

/-- Some collection of the selections, or of what they become where fragments have been put in the
place of spreads, succeeds with this much work left. -/
def Collects (scope : Scope ρ) (fragments' : Table Fragment) (selections : List Selection)
    (rank : ℕ ×ₗ ℕ) : Prop :=
  ∃ container depth visited selections' nodes,
    InlinedAll scope.fragments selections selections' ∧
    collect (scope.withFragments fragments') container depth visited selections' = .ok nodes ∧
    rank = remaining fragments' visited selections'

/-- A fragment that is spread has been collected in turn, with less work left. -/
theorem exists_of_spreads
    (hf : Table.Related (FragmentInlined scope.fragments) scope.fragments fragments')
    (hs : Spreads scope.bindings selections name)
    (hsel : InlinedAll scope.fragments selections selections')
    (h : collect (scope.withFragments fragments') container depth visited selections' = .ok nodes) :
    ∃ fragment rank, scope.fragments.get? name = some fragment ∧
      Collects scope fragments' fragment.selections rank ∧
      rank < remaining fragments' visited selections' := by
  induction hs generalizing selections' container depth visited nodes with
  | @here selections spread hm hi =>
    obtain ⟨selection', hm', hone⟩ := exists_of_inlinedAll_of_mem hsel hm
    obtain ⟨found, hfound, -⟩ := exists_of_collect_of_mem hm' h
    cases hone with
    | kept =>
      rcases exists_of_collectOne_spread hfound with ⟨he, -⟩ | ⟨-, hv, fragment', hget', -, hc⟩
      · exact absurd he hi
      · obtain ⟨fragment, hget, hr⟩ := Table.exists_left_of_related hf hget'
        exact ⟨fragment, _, hget, ⟨_, _, _, _, _, hr.selections, hc, rfl⟩,
          remaining_lt_of_unvisited hget' hv⟩
    | @replaced _ fragment hget =>
      rcases exists_of_collectOne_inline hfound with ⟨he, -⟩ | ⟨-, -, hc⟩
      · exact absurd he hi
      · exact ⟨fragment, _, hget, ⟨_, _, _, _, _, inlinedAll_refl _, hc, rfl⟩,
          remaining_lt_of_sizeOf (sizeOf_lt_inline.trans (List.sizeOf_lt_of_mem hm'))⟩
  | @field selections inner head name hm hi hs ih =>
    obtain ⟨selection', hm', hone⟩ := exists_of_inlinedAll_of_mem hsel hm
    obtain ⟨found, hfound, -⟩ := exists_of_collect_of_mem hm' h
    cases hone with
    | @field _ _ inner' hinner =>
      have hsize : sizeOf inner' < sizeOf selections' :=
        (Nat.lt_of_succ_lt sizeOf_lt_field).trans (List.sizeOf_lt_of_mem hm')
      rcases exists_of_collectOne_field hfound with ⟨he, -⟩ | ⟨-, node, hn, -⟩
      · exact absurd he hi
      · obtain ⟨-, ⟨-, -, rfl, -⟩ | ⟨-, definition, values, children, -, -, hc, -⟩⟩ :=
          exists_of_fieldNode hn
        · cases hinner
          exact absurd hs not_spreads_nil
        · generalize Schema.object? _ _ = object at hc
          cases hc with
          | leaf he =>
            subst he
            cases hinner
            exact absurd hs not_spreads_nil
          | object _ hc _ =>
            obtain ⟨fragment, rank, hget, hx, hlt⟩ := ih hinner hc
            exact ⟨fragment, rank, hget, hx, hlt.trans (remaining_lt_of_sizeOf hsize)⟩
  | @inline selections inner head name hm hi hs ih =>
    obtain ⟨selection', hm', hone⟩ := exists_of_inlinedAll_of_mem hsel hm
    obtain ⟨found, hfound, -⟩ := exists_of_collect_of_mem hm' h
    cases hone with
    | @inline _ _ inner' hinner =>
      have hsize : sizeOf inner' < sizeOf selections' :=
        sizeOf_lt_inline.trans (List.sizeOf_lt_of_mem hm')
      rcases exists_of_collectOne_inline hfound with ⟨he, -⟩ | ⟨-, -, hc⟩
      · exact absurd he hi
      · obtain ⟨fragment, rank, hget, hx, hlt⟩ := ih hinner hc
        exact ⟨fragment, rank, hget, hx, hlt.trans (remaining_lt_of_sizeOf hsize)⟩

/-- And so has every fragment that is reached. -/
theorem exists_of_reaches
    (hf : Table.Related (FragmentInlined scope.fragments) scope.fragments fragments')
    (hr : Reaches scope.fragments scope.bindings selections name) {rank : ℕ ×ₗ ℕ}
    (h : Collects scope fragments' selections rank) :
    ∃ fragment rank', scope.fragments.get? name = some fragment ∧
      Collects scope fragments' fragment.selections rank' ∧ rank' < rank := by
  induction hr generalizing rank with
  | direct hs =>
    obtain ⟨_, _, _, _, _, hsel, hc, rfl⟩ := h
    exact exists_of_spreads hf hs hsel hc
  | through hs hget _ ih =>
    obtain ⟨_, _, _, _, _, hsel, hc, rfl⟩ := h
    obtain ⟨fragment', rank', hget', hx, hlt⟩ := exists_of_spreads hf hs hsel hc
    rw [hget, Option.some.injEq] at hget'
    subst hget'
    obtain ⟨fragment, rank'', hget, hx, hlt'⟩ := ih hx
    exact ⟨fragment, rank'', hget, hx, hlt'.trans hlt⟩

/-- A fragment that has been collected does not reach itself: there would be ever less work left. -/
theorem not_reaches_of_collects
    (hf : Table.Related (FragmentInlined scope.fragments) scope.fragments fragments')
    {fragment : Fragment} (hget : scope.fragments.get? name = some fragment) {rank : ℕ ×ₗ ℕ}
    (h : Collects scope fragments' fragment.selections rank) :
    ¬ Reaches scope.fragments scope.bindings fragment.selections name := by
  intro hr
  induction rank using WellFoundedLT.induction with
  | ind rank ih =>
    obtain ⟨fragment', rank', hget', hx, hlt⟩ := exists_of_reaches hf hr h
    rw [hget, Option.some.injEq] at hget'
    subst hget'
    exact ih rank' hlt hx

/-- The fragments that are reached are there, and none of them reaches itself. -/
theorem acyclic_of_collect
    (hf : Table.Related (FragmentInlined scope.fragments) scope.fragments fragments')
    (hsel : InlinedAll scope.fragments selections selections')
    (h : collect (scope.withFragments fragments') container depth visited selections' = .ok nodes)
    (hr : Reaches scope.fragments scope.bindings selections name) :
    ∃ fragment, scope.fragments.get? name = some fragment ∧
      ¬ Reaches scope.fragments scope.bindings fragment.selections name := by
  obtain ⟨fragment, _, hget, hx, -⟩ := exists_of_reaches hf hr ⟨_, _, _, _, _, hsel, h, rfl⟩
  exact ⟨fragment, hget, not_reaches_of_collects hf hget hx⟩

end GraphGate.Plan
