import GraphGate.Proofs.Execution.Scope

/-! The order in which a plan has things: the nodes that names lead to, and which of two paths comes
first. -/
namespace GraphGate

/-- The names on a path, without its indexes. -/
def Path.names (p : Path) : List String :=
  p.filterMap fun
    | .field name => some name
    | .index _ => none

namespace FieldNode

/-- The node under a name. -/
def pick? (name : String) (nodes : List FieldNode) : Option FieldNode :=
  nodes.find? fun node => node.outputName = name

/-- The node to which names lead from another one. -/
def at? : FieldNode → List String → Option FieldNode
  | node, [] => some node
  | node, name :: rest => (pick? name node.children).bind (·.at? rest)

theorem at?_concat {node : FieldNode} {names : List String} {name : String} :
    node.at? (names ++ [name]) = (node.at? names).bind fun last => pick? name last.children := by
  induction names generalizing node with
  | nil =>
    rw [List.nil_append, at?, at?, Option.bind_some]
    cases pick? name node.children <;> rfl
  | cons first rest ih =>
    rw [List.cons_append, at?, at?, Option.bind_assoc]
    congr 1
    funext child
    exact ih

theorem pick?_of_mem {nodes : List FieldNode} {node : FieldNode} (hn : (outputNames nodes).Nodup)
    (hm : node ∈ nodes) : pick? node.outputName nodes = some node := by
  induction nodes with
  | nil => cases hm
  | cons first rest ih =>
    obtain ⟨hfirst, hrest⟩ := List.nodup_cons.mp hn
    rcases List.mem_cons.mp hm with rfl | hm
    · exact List.find?_cons_of_pos (by simp)
    · have hne : first.outputName ≠ node.outputName := by
        intro he
        rw [he] at hfirst
        exact hfirst (List.mem_map_of_mem hm)
      exact (List.find?_cons_of_neg (by simpa using hne)).trans (ih hrest hm)

end FieldNode

namespace Plan

variable {plan : Plan}

/-- The node to which names lead from the top. -/
def at? (plan : Plan) : List String → Option FieldNode
  | [] => none
  | name :: rest => (FieldNode.pick? name plan.fields).bind (·.at? rest)

/-- What is selected on objects where names lead to. -/
def below (plan : Plan) : List String → List FieldNode
  | [] => plan.fields
  | name :: rest => ((plan.at? (name :: rest)).map FieldNode.children).getD []

/-- Two paths part at selected fields or at the elements of a list, and the first goes on with what
comes first there. -/
inductive Precedes (plan : Plan) (p q : Path) : Prop
  | fields {r : Path} {name name' : String} (hne : name ≠ name')
    (hs : [name, name'].Sublist (outputNames (plan.below r.names)))
    (hp : r ++ [.field name] <+: p) (hq : r ++ [.field name'] <+: q)
  | elements {r : Path} {m n : Nat} (h : m < n) (hp : r ++ [.index m] <+: p)
    (hq : r ++ [.index n] <+: q)

/-- Depth-first order: what is above comes before what is below it; elsewhere it is what was
selected first, or what stands first in a list. -/
def Before (plan : Plan) (p q : Path) : Prop := (p <+: q ∧ p ≠ q) ∨ plan.Precedes p q

theorem below_of_at? {names : List String} {node : FieldNode} (h : plan.at? names = some node) :
    plan.below names = node.children := by
  cases names with
  | nil => cases h
  | cons name rest => rw [below, h, Option.map_some, Option.getD_some]

theorem at?_concat {names : List String} {name : String} :
    plan.at? (names ++ [name]) = FieldNode.pick? name (plan.below names) := by
  cases names with
  | nil =>
    rw [List.nil_append, at?, below]
    cases FieldNode.pick? name plan.fields <;> rfl
  | cons first rest =>
    rw [List.cons_append, at?, below, at?]
    cases FieldNode.pick? first plan.fields with
    | none => rfl
    | some node =>
      rw [Option.bind_some, Option.bind_some, FieldNode.at?_concat]
      cases node.at? rest <;> rfl

/-- A path to a selected field leads to its node. -/
theorem at?_of_mem {path : Path} {node : FieldNode}
    (hn : (outputNames (plan.below path.names)).Nodup) (hm : node ∈ plan.below path.names) :
    plan.at? (Path.names (path ++ [.field node.outputName])) = some node := by
  have he : Path.names (path ++ [.field node.outputName]) = path.names ++ [node.outputName] := by
    simp [Path.names]
  rw [he, at?_concat, FieldNode.pick?_of_mem hn hm]

theorem names_index {path : Path} {n : Nat} : Path.names (path ++ [.index n]) = path.names := by
  simp [Path.names]

/-- Paths that part are not above each other. -/
theorem not_prefix_of_precedes {p q : Path} (h : plan.Precedes p q) : ¬ p <+: q ∧ ¬ q <+: p := by
  cases h with
  | fields hne _ hp hq =>
    constructor
    · intro h
      exact hne (Segment.field.inj (Execution.segment_unique (hp.trans h) hq))
    · intro h
      exact hne (Segment.field.inj (Execution.segment_unique hp (hq.trans h)))
  | elements hlt hp hq =>
    constructor
    · intro h
      have he := Segment.index.inj (Execution.segment_unique (hp.trans h) hq)
      omega
    · intro h
      have he := Segment.index.inj (Execution.segment_unique hp (hq.trans h))
      omega

/-- What comes before another is not at it and not below it. -/
theorem not_prefix_of_before {p q : Path} (h : plan.Before p q) : ¬ q <+: p := by
  rcases h with ⟨hp, hne⟩ | h
  · intro hq
    exact hne (hp.eq_of_length_le hq.length_le)
  · exact (not_prefix_of_precedes h).2

end Plan

end GraphGate
