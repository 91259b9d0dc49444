import GraphGate.Plan.Overlay
import GraphGate.Proofs.Success

/-! Merging keeps output names apart, level by level. -/
namespace GraphGate

def outputNames (nodes : List FieldNode) : List String := nodes.map FieldNode.outputName

namespace Plan

variable {nodes result : List FieldNode} {node : FieldNode}

theorem name_eq_of_sameSelection {a b : FieldNode} (h : sameSelection a b = true) :
    a.name = b.name := by
  simp only [sameSelection, Bool.and_eq_true, beq_iff_eq] at h
  exact h.1

/-- A node joins the one with its output name, or comes last. -/
theorem exists_of_layOver (h : layOver node nodes = .ok result) :
    (node.outputName ∉ outputNames nodes ∧ result = nodes ++ [node]) ∨
      ∃ before existing after, nodes = before ++ existing :: after ∧
        existing.outputName = node.outputName ∧ sameSelection existing node = true ∧
        result = before ++ { existing with children := existing.children ++ node.children } ::
          after := by
  induction nodes generalizing result with
  | nil =>
    cases h
    exact .inl ⟨by simp [outputNames], rfl⟩
  | cons first rest ih =>
    rw [layOver] at h
    split at h
    · next hn =>
      split at h
      · next hs =>
        cases h
        exact .inr ⟨[], first, rest, rfl, hn, hs, rfl⟩
      · cases h
    · next hn =>
      obtain ⟨more, hm, rfl⟩ := exists_of_map_ok h
      rcases ih hm with ⟨hnot, rfl⟩ | ⟨before, existing, after, rfl, he, hs, rfl⟩
      · refine .inl ⟨?_, rfl⟩
        simp only [outputNames, List.map_cons, List.mem_cons, not_or]
        exact ⟨fun he => hn he.symm, hnot⟩
      · exact .inr ⟨first :: before, existing, after, rfl, he, hs, rfl⟩

theorem nodup_outputNames_of_layOver (hn : (outputNames nodes).Nodup)
    (h : layOver node nodes = .ok result) : (outputNames result).Nodup := by
  rcases exists_of_layOver h with ⟨hnot, rfl⟩ | ⟨before, existing, after, rfl, -, -, rfl⟩
  · rw [outputNames, List.map_append, List.map_singleton, List.nodup_append]
    refine ⟨hn, by simp, ?_⟩
    rintro a ha b hb rfl
    rw [List.mem_singleton.mp hb] at ha
    exact hnot ha
  · simpa [outputNames, FieldNode.outputName] using hn

theorem nodup_outputNames_of_level (h : level nodes = .ok result) :
    (outputNames result).Nodup := by
  have hs : (outputNames []).Nodup := List.nodup_nil
  exact invariant_of_foldlM (P := fun level => (outputNames level).Nodup) hs
    (fun _ _ _ _ hn hl => nodup_outputNames_of_layOver hn hl) h

/-- Merging merges one level, and then the children of each node that is left. -/
theorem exists_of_overlay (h : overlay nodes = .ok result) :
    ∃ merged, level nodes = .ok merged ∧
      List.Forall₂ (fun node node' => ∃ children, overlay node.children = .ok children ∧
        node' = { node with children }) merged result := by
  rw [overlay] at h
  split at h
  · cases h
  · next merged hm =>
    refine ⟨merged, hm, ?_⟩
    have hf := forall₂_of_mapM_ok h
    rw [← List.attach_map_subtype_val merged, List.forall₂_map_left_iff]
    refine hf.imp fun node node' hn => ?_
    obtain ⟨children, hc, hn⟩ := exists_of_bind_ok hn
    exact ⟨children, hc, (Except.ok.inj hn).symm⟩

theorem eq_nil_of_overlay_nil (h : overlay [] = .ok result) : result = [] := by
  obtain ⟨merged, hm, hf⟩ := exists_of_overlay h
  rw [level, List.foldlM_nil] at hm
  cases hm
  cases hf
  rfl

theorem outputNames_of_children {merged : List FieldNode}
    (hf : List.Forall₂ (fun node node' => ∃ children, overlay node.children = .ok children ∧
      node' = { node with children }) merged result) : outputNames result = outputNames merged := by
  induction hf with
  | nil => rfl
  | cons hn _ ih =>
    obtain ⟨children, -, rfl⟩ := hn
    simp only [outputNames, List.map_cons] at ih ⊢
    rw [ih]
    rfl

theorem nodup_outputNames_of_overlay (h : overlay nodes = .ok result) :
    (outputNames result).Nodup := by
  obtain ⟨merged, hm, hf⟩ := exists_of_overlay h
  rw [outputNames_of_children hf]
  exact nodup_outputNames_of_level hm

end Plan

end GraphGate
