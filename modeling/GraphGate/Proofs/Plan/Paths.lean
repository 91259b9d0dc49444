import GraphGate.Proofs.Plan.Merging
import Mathlib.Data.List.Induction

/-! Output paths: the output names from the top of some trees down to a node. -/
namespace GraphGate.Plan

variable {nodes : List FieldNode} {node : FieldNode} {name : String} {path : List String}

/-- A node lies in these trees, and its output path is this one: the output names from the top down
to it. -/
inductive Lies : List FieldNode → List String → FieldNode → Prop where
  | top {nodes : List FieldNode} {node : FieldNode} (h : node ∈ nodes) :
    Lies nodes [node.outputName] node
  | under {nodes : List FieldNode} {parent node : FieldNode} {path : List String}
    (h : parent ∈ nodes) (hl : Lies parent.children path node) :
    Lies nodes (parent.outputName :: path) node

def named (name : String) (nodes : List FieldNode) : List FieldNode :=
  nodes.filter (·.outputName = name)

/-- The nodes whose ancestors have these output names, in their order in the document. -/
def beneath : List String → List FieldNode → List FieldNode
  | [], nodes => nodes
  | name :: path, nodes => beneath path ((named name nodes).flatMap FieldNode.children)

theorem mem_named : node ∈ named name nodes ↔ node ∈ nodes ∧ node.outputName = name := by
  simp [named]

theorem mem_outputNames : name ∈ outputNames nodes ↔ ∃ node ∈ nodes, node.outputName = name := by
  simp [outputNames]

theorem lies_singleton : Lies nodes [name] node ↔ node ∈ named name nodes := by
  rw [mem_named]
  constructor
  · intro h
    cases h with
    | top h => exact ⟨h, rfl⟩
    | under _ hl => cases hl
  · rintro ⟨h, rfl⟩
    exact .top h

theorem lies_flatMap {group : List FieldNode} : Lies (group.flatMap FieldNode.children) path node ↔
    ∃ parent ∈ group, Lies parent.children path node := by
  constructor
  · intro h
    cases h with
    | top h =>
      obtain ⟨parent, hp, h⟩ := List.mem_flatMap.mp h
      exact ⟨parent, hp, .top h⟩
    | under h hl =>
      obtain ⟨parent, hp, h⟩ := List.mem_flatMap.mp h
      exact ⟨parent, hp, .under h hl⟩
  · rintro ⟨parent, hp, h⟩
    cases h with
    | top h => exact .top (List.mem_flatMap.mpr ⟨parent, hp, h⟩)
    | under h hl => exact .under (List.mem_flatMap.mpr ⟨parent, hp, h⟩) hl

theorem lies_cons (hp : path ≠ []) : Lies nodes (name :: path) node ↔
    Lies ((named name nodes).flatMap FieldNode.children) path node := by
  rw [lies_flatMap]
  constructor
  · intro h
    cases h with
    | top _ => exact (hp rfl).elim
    | under h hl => exact ⟨_, mem_named.mpr ⟨h, rfl⟩, hl⟩
  · rintro ⟨parent, h, hl⟩
    obtain ⟨hn, rfl⟩ := mem_named.mp h
    exact .under hn hl

/-- An output path is the way down to a node's siblings, and the node's own output name. -/
theorem lies_iff : Lies nodes (path ++ [name]) node ↔ node ∈ named name (beneath path nodes) := by
  induction path generalizing nodes with
  | nil => exact lies_singleton
  | cons first path ih => exact (lies_cons (by simp)).trans ih

theorem exists_of_lies (h : Lies nodes path node) :
    ∃ way, path = way ++ [node.outputName] ∧ node ∈ beneath way nodes := by
  rcases List.eq_nil_or_concat path with rfl | ⟨way, name, rfl⟩
  · cases h
  · rw [List.concat_eq_append] at h ⊢
    obtain ⟨hn, rfl⟩ := mem_named.mp (lies_iff.mp h)
    exact ⟨way, rfl, hn⟩

theorem lies_of_mem (h : node ∈ beneath path nodes) : Lies nodes (path ++ [node.outputName]) node :=
  lies_iff.mpr (mem_named.mpr ⟨h, rfl⟩)

theorem exists_lies_iff : (∃ node, Lies nodes path node) ↔
    ∃ way name, path = way ++ [name] ∧ name ∈ outputNames (beneath way nodes) := by
  constructor
  · rintro ⟨node, h⟩
    obtain ⟨way, hpath, hn⟩ := exists_of_lies h
    exact ⟨way, node.outputName, hpath, mem_outputNames.mpr ⟨node, hn, rfl⟩⟩
  · rintro ⟨way, name, rfl, hn⟩
    obtain ⟨node, hnode, rfl⟩ := mem_outputNames.mp hn
    exact ⟨node, lies_of_mem hnode⟩

theorem named_eq_nil (h : name ∉ outputNames nodes) : named name nodes = [] := by
  refine List.filter_eq_nil_iff.mpr fun node hn he => h ?_
  exact mem_outputNames.mpr ⟨node, hn, of_decide_eq_true he⟩

theorem named_snoc_self : named node.outputName (nodes ++ [node]) =
    named node.outputName nodes ++ [node] := by
  simp [named]

theorem named_snoc_of_ne (h : node.outputName ≠ name) :
    named name (nodes ++ [node]) = named name nodes := by
  simp [named, h]

theorem named_of_nodup (hn : (outputNames nodes).Nodup) (h : node ∈ nodes) :
    named node.outputName nodes = [node] := by
  induction nodes with
  | nil => cases h
  | cons first rest ih =>
    rw [outputNames, List.map_cons, List.nodup_cons] at hn
    rcases List.mem_cons.mp h with rfl | h
    · have hr := named_eq_nil hn.1
      rw [named] at hr
      simp [named, hr]
    · have hne : first.outputName ≠ node.outputName := by
        intro he
        rw [he] at hn
        exact hn.1 (List.mem_map_of_mem h)
      have hr := ih hn.2 h
      rw [named] at hr
      simp [named, hne, hr]

end GraphGate.Plan
