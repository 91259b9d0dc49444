import GraphGate.Plan.Basic

/-! Laying selections over each other: fields with the same output name become one. -/
namespace GraphGate.Plan

/-- Whether two nodes select the same field with the same arguments. -/
def sameSelection (a b : FieldNode) : Bool :=
  a.name == b.name && (Json.obj a.arguments).same (.obj b.arguments)

/-- Adds a node to others that differ in their output names. -/
def layOver (node : FieldNode) : List FieldNode → Except PlanError (List FieldNode)
  | [] => .ok [node]
  | existing :: rest =>
    if existing.outputName = node.outputName then
      if sameSelection existing node then
        .ok ({ existing with children := existing.children ++ node.children } :: rest)
      else .error (.conflict node.outputName node.position)
    else (layOver node rest).map (existing :: ·)

/-- One level: each output name once, in the order in which they first come. -/
def level (nodes : List FieldNode) : Except PlanError (List FieldNode) :=
  nodes.foldlM (fun level node => layOver node level) []

open FieldNode (weight weights)

theorem weights_append (as bs : List FieldNode) : weights (as ++ bs) = weights as + weights bs := by
  induction as with
  | nil => simp [weights]
  | cons a as ih => simp [weights, ih, Nat.add_assoc]

theorem weight_eq (node : FieldNode) : node.weight = 1 + weights node.children := by
  cases node
  simp [weight]

theorem weights_layOver {node : FieldNode} {nodes result : List FieldNode}
    (h : layOver node nodes = .ok result) : weights result ≤ weights nodes + node.weight := by
  induction nodes generalizing result with
  | nil =>
    simp only [layOver, Except.ok.injEq] at h
    subst h
    simp [weights]
  | cons existing rest ih =>
    simp only [layOver] at h
    split at h
    · split at h
      · simp only [Except.ok.injEq] at h
        subst h
        simp only [weights, weight_eq, weights_append]
        omega
      · simp at h
    · cases hr : layOver node rest with
      | error e => simp [hr, Except.map] at h
      | ok more =>
        simp only [hr, Except.map, Except.ok.injEq] at h
        subst h
        have := ih hr
        simp only [weights]
        omega

theorem weights_foldlM {nodes start result : List FieldNode}
    (h : nodes.foldlM (fun level node => layOver node level) start = .ok result) :
    weights result ≤ weights start + weights nodes := by
  induction nodes generalizing start with
  | nil =>
    simp only [List.foldlM_nil, pure, Except.pure, Except.ok.injEq] at h
    subst h
    simp [weights]
  | cons node rest ih =>
    simp only [List.foldlM_cons, bind, Except.bind] at h
    split at h
    · simp at h
    · next next hn =>
      have h₁ := weights_layOver hn
      have h₂ := ih h
      simp only [weights]
      omega

theorem weights_level {nodes result : List FieldNode} (h : level nodes = .ok result) :
    weights result ≤ weights nodes := by
  have := weights_foldlM h
  simpa [weights] using this

theorem weight_le_of_mem {node : FieldNode} {nodes : List FieldNode} (h : node ∈ nodes) :
    node.weight ≤ weights nodes := by
  induction h with
  | head => simp [weights]
  | tail _ _ ih => simp only [weights]; omega

/-- All levels, from the top down. -/
def overlay (nodes : List FieldNode) : Except PlanError (List FieldNode) :=
  match _h : level nodes with
  | .error e => .error e
  | .ok merged => merged.attach.mapM fun ⟨node, _hn⟩ => do
    let children ← overlay node.children
    return { node with children }
termination_by weights nodes
decreasing_by
  have h₁ := weights_level _h
  have h₂ := weight_le_of_mem _hn
  rw [weight_eq] at h₂
  omega

end GraphGate.Plan
