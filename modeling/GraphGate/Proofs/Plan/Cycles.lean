import GraphGate.Proofs.Plan.Acyclic
import GraphGate.Proofs.Plan.Arguments
import GraphGate.Proofs.Plan.Checks
import GraphGate.Proofs.Plan.Fuel

/-! Collection comes to an end whatever fragments there are, and it is refused for a cycle only
where a fragment reaches itself. -/
namespace GraphGate.Plan

open Query

variable {ρ α : Type} {P : PlanError → Prop}

theorem noCycle_of_check {x : Except PlanError α} (h : FailsOnly OfCheck x) :
    FailsOnly NoCycle x := by
  refine failsOnly_imp (fun e he => ?_) h
  cases e with
  | fragmentCycle name position => exact he.elim
  | _ => rfl

theorem noCycle_overlay {nodes : List FieldNode} : FailsOnly NoCycle (overlay nodes) :=
  noCycle_of_check ofCheck_overlay

/-- A cycle is blamed only on a fragment that the selections reach, and that reaches itself or lies
on the way. -/
def Blames (scope : Scope ρ) (visited : List String) (selections : List Selection) (e : PlanError) :
    Prop :=
  ∀ name position, e = .fragmentCycle name position →
    Reaches scope.fragments scope.bindings selections name ∧
      (name ∈ visited ∨ ∃ fragment, scope.fragments.get? name = some fragment ∧
        Reaches scope.fragments scope.bindings fragment.selections name)

section Blames

variable {scope : Scope ρ} {visited : List String} {selections selections' : List Selection}
  {x : Except PlanError α}

theorem blames_of_noCycle (h : FailsOnly NoCycle x) :
    FailsOnly (Blames scope visited selections) x :=
  failsOnly_imp (fun _ hn _ _ he => by rw [he] at hn; cases hn) h

theorem blames_of_check (h : FailsOnly OfCheck x) :
    FailsOnly (Blames scope visited selections) x :=
  blames_of_noCycle (noCycle_of_check h)

theorem blames_of_reaches (hr : ∀ name, Reaches scope.fragments scope.bindings selections name →
      Reaches scope.fragments scope.bindings selections' name)
    (h : FailsOnly (Blames scope visited selections) x) :
    FailsOnly (Blames scope visited selections') x := by
  refine failsOnly_imp (fun e hb name position he => ?_) h
  obtain ⟨hname, hc⟩ := hb name position he
  exact ⟨hr name hname, hc⟩

/-- A fragment on the way that is reached from its own selections reaches itself. -/
theorem blames_spread {spread : Spread} {fragment : Fragment}
    (hi : included scope.bindings spread.directives ≠ .ok false)
    (hf : scope.fragments.get? spread.name = some fragment)
    (h : FailsOnly (Blames scope (spread.name :: visited) fragment.selections) x) :
    FailsOnly (Blames scope visited [.spread spread]) x := by
  refine failsOnly_imp (fun e hb name position he => ?_) h
  obtain ⟨hname, hc⟩ := hb name position he
  refine ⟨reaches_spread hi hf hname, ?_⟩
  rcases hc with hv | hc
  · rcases List.mem_cons.mp hv with rfl | hv
    · exact .inr ⟨fragment, hf, hname⟩
    · exact .inl hv
  · exact .inr hc

end Blames

section Collect

variable {scope : Scope ρ}

mutual

theorem blames_collect (container : ObjectType ρ) (depth : Nat) (visited : List String)
    (selections : List Selection) :
    FailsOnly (Blames scope visited selections)
      (collect scope container depth visited selections) := by
  match selections with
  | [] =>
    rw [collect_nil]
    exact failsOnly_ok []
  | selection :: rest =>
    have hfirst := blames_collectOne container depth visited selection
    have hmore := blames_collect container depth visited rest
    rw [collect]
    refine failsOnly_bind (blames_of_reaches (fun _ => reaches_mono (by simp)) hfirst) fun _ _ => ?_
    refine failsOnly_bind (blames_of_reaches (fun _ => reaches_mono (by simp)) hmore) fun _ _ => ?_
    exact failsOnly_ok _
termination_by (unvisited scope.fragments visited, sizeOf selections)

theorem blames_collectOne (container : ObjectType ρ) (depth : Nat) (visited : List String)
    (selection : Selection) :
    FailsOnly (Blames scope visited [selection])
      (collectOne scope container depth visited selection) := by
  match selection with
  | .field head selections =>
    have hn := blames_fieldNode container depth visited head selections
    rw [collectOne_field]
    refine failsOnly_bind (blames_of_check ofCheck_included) fun wanted hw => ?_
    cases wanted with
    | false => exact failsOnly_ok []
    | true => exact failsOnly_map (blames_of_reaches
        (fun _ => reaches_field (ne_of_included hw)) hn)
  | .spread spread =>
    have hn : ∀ fragment, visited.contains spread.name = false →
        scope.fragments.get? spread.name = some fragment →
        FailsOnly (Blames scope (spread.name :: visited) fragment.selections)
          (collect scope container depth (spread.name :: visited) fragment.selections) := by
      intro fragment hv hf
      have hlt := unvisited_cons_lt hf hv
      exact blames_collect container depth (spread.name :: visited) fragment.selections
    rw [collectOne_spread]
    refine failsOnly_bind (blames_of_check ofCheck_included) fun wanted hw => ?_
    cases wanted with
    | false => exact failsOnly_ok []
    | true =>
      rw [if_pos rfl]
      cases hv : visited.contains spread.name with
      | true =>
        refine failsOnly_error ?_
        rintro name position ⟨⟩
        exact ⟨.direct (.here (by simp) (ne_of_included hw)), .inl (by simpa using hv)⟩
      | false =>
        cases hf : scope.fragments.get? spread.name with
        | none => exact blames_of_noCycle (failsOnly_error rfl)
        | some fragment =>
          refine failsOnly_bind (blames_of_check ofCheck_checkCondition) fun _ _ => ?_
          exact blames_spread (ne_of_included hw) hf (hn fragment hv hf)
  | .inline head selections =>
    have hn := blames_collect container depth visited selections
    rw [collectOne_inline]
    refine failsOnly_bind (blames_of_check ofCheck_included) fun wanted hw => ?_
    cases wanted with
    | false => exact failsOnly_ok []
    | true =>
      refine failsOnly_bind (blames_of_check ofCheck_checkInline) fun _ _ => ?_
      exact blames_of_reaches (fun _ => reaches_inline (ne_of_included hw)) hn
termination_by (unvisited scope.fragments visited, sizeOf selection)
decreasing_by
  · exact Prod.Lex.right _ sizeOf_lt_field
  · exact Prod.Lex.left _ _ hlt
  · exact Prod.Lex.right _ sizeOf_lt_inline

theorem blames_fieldNode (container : ObjectType ρ) (depth : Nat) (visited : List String)
    (head : FieldHead) (selections : List Selection) :
    FailsOnly (Blames scope visited selections)
      (fieldNode scope container depth visited head selections) := by
  have hc := fun object => blames_collect object (depth + 1) visited selections
  by_cases hd : scope.depthLimit < depth
  · rw [fieldNode_of_tooDeep scope hd]
    exact blames_of_noCycle (failsOnly_error rfl)
  · have hd' := Nat.not_lt.mp hd
    by_cases hn : head.name = typename
    · rw [fieldNode_typename scope hd' hn]
      exact blames_of_check ofCheck_typenameNode
    · cases hf : container.field? head.name with
      | none =>
        rw [fieldNode_unknown scope hd' hn hf]
        exact blames_of_noCycle (failsOnly_error rfl)
      | some definition =>
        rw [fieldNode_of_field? scope hd' hn hf]
        refine failsOnly_bind ?_ fun _ _ => failsOnly_bind (blames_of_check ofCheck_arguments)
          fun _ _ => failsOnly_ok _
        rcases childNodes_cases scope.schema head selections definition.type with
          ⟨object, heq⟩ | heq | ⟨e, heq, hne⟩
        · rw [heq]
          exact failsOnly_bind (hc object) fun _ _ => blames_of_noCycle noCycle_overlay
        · rw [heq]
          exact failsOnly_ok []
        · rw [heq]
          exact blames_of_noCycle (failsOnly_error hne)
termination_by (unvisited scope.fragments visited, sizeOf selections + 1)

end

end Collect

/-- What selections select, as far as the fuel goes. -/
def selectedWithin (scope : Scope ρ) (fuel : Nat) (container : ObjectType ρ) (depth : Nat)
    (selections : List Selection) : Attempt (List FieldNode) := do
  let nodes ← collectWithin scope fuel container depth [] selections
  Attempt.done (overlay nodes)

/-- Whatever the fragments spread, what selections select is settled after finitely many calls. If
there is a result, then every fragment that is reached is there and does not reach itself; and where
a cycle is blamed on a fragment, that fragment does. -/
theorem cycles_found_exactly (scope : Scope ρ) (container : ObjectType ρ) (depth : Nat)
    (selections : List Selection) :
    Settles (fun fuel => selectedWithin scope fuel container depth selections)
        (selected scope container depth [] selections) ∧
      (∀ nodes, selected scope container depth [] selections = .ok nodes →
        ∀ name, Reaches scope.fragments scope.bindings selections name →
          ∃ fragment, scope.fragments.get? name = some fragment ∧
            ¬ Reaches scope.fragments scope.bindings fragment.selections name) ∧
      ∀ name position,
        selected scope container depth [] selections = .error (.fragmentCycle name position) →
        Reaches scope.fragments scope.bindings selections name ∧
          ∃ fragment, scope.fragments.get? name = some fragment ∧
            Reaches scope.fragments scope.bindings fragment.selections name := by
  refine ⟨?_, ?_, ?_⟩
  · exact settles_bind (settles_collect container depth [] selections) fun _ _ => settles_done
  · intro nodes h name hr
    obtain ⟨collected, hc, -⟩ := exists_of_bind_ok h
    exact acyclic_of_collect fragmentsInlined_refl (inlinedAll_refl selections) hc hr
  · intro name position h
    have hb : FailsOnly (Blames scope [] selections)
        (selected scope container depth [] selections) :=
      failsOnly_bind (blames_collect container depth [] selections)
        fun _ _ => blames_of_noCycle noCycle_overlay
    obtain ⟨hr, hv | hc⟩ := hb _ h name position rfl
    · cases hv
    · exact ⟨hr, hc⟩

end GraphGate.Plan
