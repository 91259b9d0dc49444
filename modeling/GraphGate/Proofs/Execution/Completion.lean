import GraphGate.Execution.Completion

/-! The values and errors of completions that are put together. -/
namespace GraphGate.Execution

variable {α β γ : Type}

/-- A place has the value that was completed for it, or null where it may be null. -/
theorem value_of_orNull {c : Completion Json} {nullable : Bool} {v : Json}
    (h : (c.orNull nullable).value = some v) :
    c.value = some v ∨ (c.value = none ∧ v = .null ∧ nullable = true) := by
  unfold Completion.orNull at h
  split at h
  · next hv => exact .inl h
  · next hv =>
    split at h
    · next hn =>
      cases h
      exact .inr ⟨hv, rfl, hn⟩
    · exact .inl h

theorem value_orNull_true {c : Completion Json} :
    (c.orNull true).value = some (c.value.getD .null) := by
  unfold Completion.orNull
  cases hc : c.value with
  | none => rfl
  | some v => exact hc

theorem errors_orNull {c : Completion Json} {nullable : Bool} :
    (c.orNull nullable).errors = c.errors := by
  unfold Completion.orNull
  repeat' split
  all_goals rfl

theorem exists_of_both {f : α → β → γ} {a : Completion α} {b : Completion β} {z : γ}
    (h : (Completion.both f a b).value = some z) :
    ∃ x y, a.value = some x ∧ b.value = some y ∧ z = f x y := by
  obtain ⟨x, hx, h⟩ := Option.bind_eq_some_iff.mp h
  obtain ⟨y, hy, h⟩ := Option.map_eq_some_iff.mp h
  exact ⟨x, y, hx, hy, h.symm⟩

theorem exists_of_map {f : α → β} {c : Completion α} {z : β} (h : (c.map f).value = some z) :
    ∃ x, c.value = some x ∧ z = f x := by
  obtain ⟨x, hx, h⟩ := Option.map_eq_some_iff.mp h
  exact ⟨x, hx, h.symm⟩

end GraphGate.Execution
