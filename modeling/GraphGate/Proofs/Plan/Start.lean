import GraphGate.Plan.Build
import GraphGate.Proofs.Success

/-! What is settled about a document before its selections are looked at. -/
namespace GraphGate.Plan

open Query

variable {ρ : Type} {schema : Schema ρ} {document : Document} {name label : Option String}
  {supplied : Table Json} {operation : Operation} {root : String} {container : ObjectType ρ}
  {bindings : Bindings}

/-- The operation that is meant and the name it goes by, the object type that it starts at, and the
values of its variables. -/
structure Starts (schema : Schema ρ) (document : Document) (name : Option String)
    (supplied : Table Json) (label : Option String) (operation : Operation) (root : String)
    (container : ObjectType ρ) (bindings : Bindings) : Prop where
  chosen : chosen document.operations name = .ok (label, operation)
  rootName : rootName schema operation = .ok root
  container : schema.object? root = some container
  bindings : Plan.bindings schema supplied operation.declarations = .ok bindings

/-- From there on, a plan is what the operation selects. -/
theorem ofDocument_of_starts {limit : Nat}
    (h : Starts schema document name supplied label operation root container bindings) :
    ofDocument schema limit document name supplied =
      (selected ⟨schema, document.fragments, bindings, limit⟩ container 1 []
        operation.selections).map fun fields => ⟨label, operation.type, root, fields⟩ := by
  rw [ofDocument, h.chosen, ok_bind]
  simp only [ofOperation, h.rootName, ok_bind, h.container, pure_bind, h.bindings]
  rfl

theorem exists_starts_of_ofDocument {limit : Nat} {plan : Plan}
    (h : ofDocument schema limit document name supplied = .ok plan) :
    ∃ operation container bindings,
      Starts schema document name supplied plan.name operation plan.root container bindings ∧
      plan.operation = operation.type ∧
      selected ⟨schema, document.fragments, bindings, limit⟩ container 1 []
        operation.selections = .ok plan.fields := by
  obtain ⟨⟨label, operation⟩, hc, h⟩ := exists_of_bind_ok h
  obtain ⟨root, hr, h⟩ := exists_of_bind_ok h
  simp only at h
  split at h
  · next container ho =>
    obtain ⟨container', hc', h⟩ := exists_of_bind_ok h
    cases hc'
    obtain ⟨bindings, hb, h⟩ := exists_of_bind_ok h
    obtain ⟨fields, hs, h⟩ := exists_of_bind_ok h
    cases h
    exact ⟨operation, container, bindings, ⟨hc, hr, ho, hb⟩, rfl, hs⟩
  · cases h

end GraphGate.Plan
