import GraphGate.Proofs.Plan.Start
import GraphGate.Proofs.Plan.Steps
import GraphGate.Proofs.Plan.WellFormed

/-! The depth limit: a plan is accepted under every limit that is not below its height, and is too
deep for all others. -/
namespace GraphGate

open Query

namespace FieldNode

mutual

/-- The greatest number of nodes under each other. -/
def height : FieldNode → Nat
  | ⟨_, _, _, children, _⟩ => 1 + heights children

/-- The height of the highest node; zero if there is none. -/
def heights : List FieldNode → Nat
  | [] => 0
  | node :: rest => max node.height (heights rest)

end

theorem height_eq (node : FieldNode) : node.height = 1 + heights node.children := by
  cases node
  rw [height]

@[simp] theorem heights_nil : heights [] = 0 := by rw [heights]

@[simp] theorem heights_cons (node : FieldNode) (rest : List FieldNode) :
    heights (node :: rest) = max node.height (heights rest) := by
  rw [heights]

@[simp] theorem heights_append (as bs : List FieldNode) :
    heights (as ++ bs) = max (heights as) (heights bs) := by
  induction as with
  | nil => simp
  | cons a as ih => rw [List.cons_append, heights_cons, heights_cons, ih, Nat.max_assoc]

end FieldNode

namespace Plan

open FieldNode (height heights height_eq heights_cons heights_append)

section Merging

variable {node : FieldNode} {nodes start result : List FieldNode}

theorem heights_layOver (h : layOver node nodes = .ok result) :
    heights result = max (heights nodes) node.height := by
  rcases exists_of_layOver h with ⟨-, rfl⟩ | ⟨before, existing, after, rfl, -, -, rfl⟩
  · simp
  · simp only [heights_append, heights_cons, height_eq]
    omega

theorem heights_foldlM
    (h : nodes.foldlM (fun level node => layOver node level) start = .ok result) :
    heights result = max (heights start) (heights nodes) := by
  induction nodes generalizing start with
  | nil =>
    cases h
    simp
  | cons node rest ih =>
    rw [List.foldlM_cons] at h
    obtain ⟨next, hn, h⟩ := exists_of_bind_ok h
    rw [ih h, heights_layOver hn, heights_cons, Nat.max_assoc]

theorem heights_level (h : level nodes = .ok result) : heights result = heights nodes := by
  simpa using heights_foldlM h

/-- Nodes of which each has its height have it together. -/
theorem heights_of_forall₂ (h : List.Forall₂ (fun a b => height b = height a) nodes result) :
    heights result = heights nodes := by
  induction h with
  | nil => rfl
  | cons hn _ ih => rw [heights_cons, heights_cons, hn, ih]

theorem heights_overlay (h : overlay nodes = .ok result) : heights result = heights nodes := by
  induction nodes using overlay.induct generalizing result with
  | case1 nodes e he =>
    obtain ⟨merged, hm, -⟩ := exists_of_overlay h
    rw [he] at hm
    cases hm
  | case2 nodes merged hm ih =>
    obtain ⟨merged', hm', hf⟩ := exists_of_overlay h
    rw [hm, Except.ok.injEq] at hm'
    subst hm'
    rw [← heights_level hm]
    refine heights_of_forall₂ (((List.forall₂_and_left merged result).mpr ⟨fun _ => id, hf⟩).imp ?_)
    rintro node node' ⟨hnode, children, hc, rfl⟩
    rw [height_eq, height_eq, ih node hnode hc]

end Merging

section Cut

variable {α β : Type} {p q : Prop} {a : α} {b : β} {x : Except PlanError α}
  {f : α → Except PlanError β}

/-- A computation under a limit: it gives what it gives without one if that fits, and else it
finds something too deep. -/
structure Cut (fits : Prop) (a : α) (x : Except PlanError α) : Prop where
  ok : fits → x = .ok a
  tooDeep : ¬ fits → ∃ position, x = .error (.tooDeep position)

theorem cut_ok (hp : p) : Cut p a (.ok a) where
  ok _ := rfl
  tooDeep hn := absurd hp hn

theorem cut_congr (h : p ↔ q) (hx : Cut p a x) : Cut q a x where
  ok hq := hx.ok (h.mpr hq)
  tooDeep hq := hx.tooDeep fun hp => hq (h.mp hp)

/-- One after the other: both must fit, and the first that does not decides. -/
theorem cut_bind (hx : Cut p a x) (hf : Cut q b (f a)) : Cut (p ∧ q) b (x >>= f) where
  ok h := by
    rw [hx.ok h.1]
    exact hf.ok h.2
  tooDeep h := by
    by_cases hp : p
    · rw [hx.ok hp]
      exact hf.tooDeep fun hq => h ⟨hp, hq⟩
    · obtain ⟨position, hx⟩ := hx.tooDeep hp
      exact ⟨position, by rw [hx]; rfl⟩

/-- A step that has nothing to do with the limit. -/
theorem cut_then (hx : Cut p a x) (hf : f a = .ok b) : Cut p b (x >>= f) :=
  cut_congr (and_iff_left trivial) (cut_bind hx (by rw [hf]; exact cut_ok trivial))

end Cut

variable {ρ : Type} {scope : Scope ρ} {limit : Nat}

/-- The same scope with another limit. -/
def Scope.limited (scope : Scope ρ) (limit : Nat) : Scope ρ := { scope with depthLimit := limit }

/-- What is below a field is cut as its selection is. -/
theorem cut_childNodes {schema : Schema ρ} {head : FieldHead} {selections : List Selection}
    {type : TypeRef} {below below' : ObjectType ρ → Except PlanError (List FieldNode)}
    {depth : Nat} {children : List FieldNode} (hd : depth ≤ limit + 1)
    (hb : ∀ object children, below object = .ok children →
      Cut (depth + heights children ≤ limit + 1) children (below' object))
    (h : childNodes schema head selections type below = .ok children) :
    Cut (depth + heights children ≤ limit + 1) children
      (childNodes schema head selections type below') := by
  rcases childNodes_cases schema head selections type with ⟨object, he⟩ | he | ⟨e, he, -⟩
  · rw [he] at h ⊢
    exact hb object children h
  · rw [he] at h ⊢
    cases h
    exact cut_ok hd
  · rw [he] at h
    cases h

mutual

/-- Fields that are collected under one limit, under another. -/
theorem cut_collect {container : ObjectType ρ} {depth : Nat} {visited : List String}
    {selections : List Selection} {nodes : List FieldNode} (hd : depth ≤ limit + 1)
    (h : collect scope container depth visited selections = .ok nodes) :
    Cut (depth + heights nodes ≤ limit + 1) nodes
      (collect (scope.limited limit) container depth visited selections) := by
  match selections with
  | [] =>
    rw [collect_nil] at h ⊢
    cases h
    exact cut_ok hd
  | selection :: rest =>
    obtain ⟨first, more, hf, hm, rfl⟩ := exists_of_collect_cons h
    have hfirst := cut_collectOne hd hf
    have hmore := cut_collect hd hm
    rw [collect]
    refine cut_congr ?_ (cut_bind hfirst (cut_then hmore rfl))
    rw [heights_append]
    omega
termination_by (unvisited scope.fragments visited, sizeOf selections)

theorem cut_collectOne {container : ObjectType ρ} {depth : Nat} {visited : List String}
    {selection : Selection} {nodes : List FieldNode} (hd : depth ≤ limit + 1)
    (h : collectOne scope container depth visited selection = .ok nodes) :
    Cut (depth + heights nodes ≤ limit + 1) nodes
      (collectOne (scope.limited limit) container depth visited selection) := by
  match selection with
  | .field head selections =>
    rcases exists_of_collectOne_field h with ⟨hi, rfl⟩ | ⟨hi, node, hn, rfl⟩
    · rw [collectOne_of_excluded (scope.limited limit) (.field head selections) hi]
      exact cut_ok hd
    · rw [collectOne_field_of_included (scope.limited limit) hi]
      refine cut_congr ?_ (cut_then (cut_fieldNode hd hn) rfl)
      simp
  | .spread spread =>
    rcases exists_of_collectOne_spread h with ⟨hi, rfl⟩ | ⟨hi, hv, fragment, hf, hc, hn⟩
    · rw [collectOne_of_excluded (scope.limited limit) (.spread spread) hi]
      exact cut_ok hd
    · rw [collectOne_spread_of_get? (scope.limited limit) hi hv hf hc]
      exact cut_collect hd hn
  | .inline head selections =>
    rcases exists_of_collectOne_inline h with ⟨hi, rfl⟩ | ⟨hi, hc, hn⟩
    · rw [collectOne_of_excluded (scope.limited limit) (.inline head selections) hi]
      exact cut_ok hd
    · rw [collectOne_inline_of_eq (scope.limited limit) hi hc]
      exact cut_collect hd hn
termination_by (unvisited scope.fragments visited, sizeOf selection)
decreasing_by
  · exact Prod.Lex.right _ sizeOf_lt_field
  · exact Prod.Lex.left _ _ (unvisited_cons_lt hf hv)
  · exact Prod.Lex.right _ sizeOf_lt_inline

theorem cut_fieldNode {container : ObjectType ρ} {depth : Nat} {visited : List String}
    {head : FieldHead} {selections : List Selection} {node : FieldNode} (hd : depth ≤ limit + 1)
    (h : fieldNode scope container depth visited head selections = .ok node) :
    Cut (depth + height node ≤ limit + 1) node
      (fieldNode (scope.limited limit) container depth visited head selections) := by
  have hheight := height_eq node
  by_cases hl : limit < depth
  · have he : fieldNode (scope.limited limit) container depth visited head selections =
        .error (.tooDeep head.position) := fieldNode_of_tooDeep (scope.limited limit) hl
    exact ⟨fun hfit => by omega, fun _ => ⟨_, he⟩⟩
  · have hl' : depth ≤ (scope.limited limit).depthLimit := Nat.not_lt.mp hl
    obtain ⟨hscope, ⟨hn, -⟩ | ⟨hn, definition, -, -, hf, -⟩⟩ := exists_of_fieldNode h
    · rw [fieldNode_typename scope hscope hn] at h
      rw [fieldNode_typename (scope.limited limit) hl' hn, h]
      obtain ⟨-, -, rfl⟩ := eq_of_typenameNode h
      exact cut_ok (by simp at hheight; omega)
    · rw [fieldNode_of_field? scope hscope hn hf] at h
      rw [fieldNode_of_field? (scope.limited limit) hl' hn hf]
      obtain ⟨children, hc, h⟩ := exists_of_bind_ok h
      obtain ⟨values, hv, h⟩ := exists_of_bind_ok h
      cases h
      have hb : ∀ object children,
          (collect scope object (depth + 1) visited selections >>= overlay) = .ok children →
          Cut (depth + 1 + heights children ≤ limit + 1) children
            (collect (scope.limited limit) object (depth + 1) visited selections >>= overlay) := by
        intro object children h
        obtain ⟨nodes, hnodes, hm⟩ := exists_of_bind_ok h
        rw [heights_overlay hm]
        exact cut_then (cut_collect (by omega) hnodes) hm
      refine cut_congr ?_ (cut_then (cut_childNodes (by omega) hb hc) ?_)
      · rw [height_eq]
        simp only
        omega
      · exact congrArg (· >>= _) hv
termination_by (unvisited scope.fragments visited, sizeOf selections + 1)

end

/-- The selection of an operation, which starts at depth one. -/
theorem cut_selected {container : ObjectType ρ} {visited : List String}
    {selections : List Selection} {nodes : List FieldNode}
    (h : selected scope container 1 visited selections = .ok nodes) :
    Cut (heights nodes ≤ limit) nodes
      (selected (scope.limited limit) container 1 visited selections) := by
  obtain ⟨collected, hc, hm⟩ := exists_of_bind_ok h
  refine cut_congr ?_ (cut_then (cut_collect (by omega) hc) hm)
  rw [heights_overlay hm]
  omega

/-- A plan that is accepted under one limit is not higher than that limit; it is accepted as it is
under every limit that is not below its height, and lower limits find it too deep. -/
theorem depth_limit_exact {schema : Schema ρ} {bound : Nat} {document : Document}
    {name : Option String} {supplied : Table Json} {plan : Plan}
    (h : ofDocument schema bound document name supplied = .ok plan) :
    heights plan.fields ≤ bound ∧ ∀ limit,
      (heights plan.fields ≤ limit →
        ofDocument schema limit document name supplied = .ok plan) ∧
      (limit < heights plan.fields → ∃ position,
        ofDocument schema limit document name supplied = .error (.tooDeep position)) := by
  obtain ⟨operation, container, bindings, hs, ho, hf⟩ := exists_starts_of_ofDocument h
  have hcut : ∀ limit, Cut (heights plan.fields ≤ limit) plan
      (ofDocument schema limit document name supplied) := by
    intro limit
    rw [ofDocument_of_starts hs, ← ho]
    exact cut_then (cut_selected hf) rfl
  refine ⟨?_, fun limit => ⟨(hcut limit).ok, fun hl => (hcut limit).tooDeep (Nat.not_le.mpr hl)⟩⟩
  by_contra hn
  obtain ⟨position, he⟩ := (hcut bound).tooDeep hn
  rw [h] at he
  cases he

end Plan

end GraphGate

namespace GraphGate.Sample

open Query Plan

/-- The fragment `fragment UserName on User { name }`. -/
def userName : Fragment := ⟨⟨2, 1⟩, "User", [.field ⟨⟨2, 29⟩, none, "name", [], []⟩ []]⟩

/-- The query `{ user(id: 7) { ...UserName } }`, with that fragment. -/
def spreadDocument : Document where
  operations := .single ⟨⟨1, 1⟩, .query, [], [.field
    ⟨⟨1, 3⟩, none, "user", [⟨"id", ⟨1, 12⟩, .number (.int 7)⟩], []⟩
    [.spread ⟨⟨1, 17⟩, "UserName", []⟩]]⟩
  fragments := [("UserName", userName)]

def spreadPlan : Plan where
  name := none
  operation := .query
  root := "Query"
  fields := [⟨none, "user", [("id", .str "7")], [⟨none, "name", [], [], ⟨2, 29⟩⟩], ⟨1, 3⟩⟩]

theorem ofDocument_spreadDocument :
    ofDocument schema 64 spreadDocument none [] = .ok spreadPlan := by cbv

theorem depth_limit_exact_spread :
    ofDocument schema 64 spreadDocument none [] = .ok spreadPlan ∧
      FieldNode.heights spreadPlan.fields ≤ 64 ∧ ∀ limit,
        (FieldNode.heights spreadPlan.fields ≤ limit →
          ofDocument schema limit spreadDocument none [] = .ok spreadPlan) ∧
        (limit < FieldNode.heights spreadPlan.fields → ∃ position,
          ofDocument schema limit spreadDocument none [] = .error (.tooDeep position)) :=
  ⟨ofDocument_spreadDocument, depth_limit_exact ofDocument_spreadDocument⟩

end GraphGate.Sample
