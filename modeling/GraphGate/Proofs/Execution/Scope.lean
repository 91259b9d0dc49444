import GraphGate.Path
import GraphGate.Proofs.Plan.Merging
import Mathlib.Data.List.Infix

/-! Parts of a response that have no path in common. -/
namespace GraphGate.Execution

/-- What is at the fields of an object, and below them. -/
def UnderKeys (path : Path) (keys : List String) (p : Path) : Prop :=
  ∃ key ∈ keys, path ++ [.field key] <+: p

/-- What is at the elements of a list from an index on, and below them. -/
def UnderIndexes (path : Path) (index : Nat) (p : Path) : Prop :=
  ∃ n, index ≤ n ∧ path ++ [.index n] <+: p

theorem segment_unique {path p : Path} {s s' : Segment} (h : path ++ [s] <+: p)
    (h' : path ++ [s'] <+: p) : s = s' := by
  obtain ⟨q, hq⟩ := h
  obtain ⟨q', hq'⟩ := h'
  have he : s :: q = s' :: q' := by
    have hp : path ++ s :: q = path ++ s' :: q' := by simpa using hq.trans hq'.symm
    exact List.append_cancel_left hp
  exact (List.cons.inj he).1

theorem ne_of_below {path p : Path} {s : Segment} (h : path ++ [s] <+: p) : p ≠ path := by
  rintro rfl
  have hl := h.length_le
  rw [List.length_append, List.length_singleton] at hl
  omega

theorem prefix_of_underKeys {path p : Path} {keys : List String} (h : UnderKeys path keys p) :
    path <+: p := by
  obtain ⟨key, -, hp⟩ := h
  exact (List.prefix_append path _).trans hp

theorem prefix_of_underIndexes {path p : Path} {index : Nat} (h : UnderIndexes path index p) :
    path <+: p := by
  obtain ⟨n, -, hp⟩ := h
  exact (List.prefix_append path _).trans hp

/-- The first field's part and that of the fields after it make up the whole. -/
theorem underKeys_cons {path p : Path} {node : FieldNode} {nodes : List FieldNode}
    (h : path ++ [.field node.outputName] <+: p ∨ UnderKeys path (outputNames nodes) p) :
    UnderKeys path (outputNames (node :: nodes)) p := by
  rcases h with hp | ⟨key, hk, hp⟩
  · exact ⟨_, List.mem_cons_self, hp⟩
  · exact ⟨key, List.mem_cons_of_mem _ hk, hp⟩

theorem underIndexes_cons {path p : Path} {index : Nat}
    (h : path ++ [.index index] <+: p ∨ UnderIndexes path (index + 1) p) :
    UnderIndexes path index p := by
  rcases h with hp | ⟨n, hn, hp⟩
  · exact ⟨index, Nat.le_refl _, hp⟩
  · exact ⟨n, by omega, hp⟩

end GraphGate.Execution
