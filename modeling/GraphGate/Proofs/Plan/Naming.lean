import GraphGate.Proofs.Environment
import GraphGate.Proofs.Plan.Relevance

/-! The name that an operation goes by: the one that it is declared with, or, if it has none, the
one that the request gives. Gates see no other name. -/
namespace GraphGate.Plan

open Query

variable {ρ : Type} {schema : Schema ρ} {limit : Nat} {document : Document}
  {operations : Operations} {operation : Operation} {name label : Option String}
  {supplied : Table Json} {plan : Plan}

/-- An operation of a document, with the name that it is declared with, if it has one. -/
inductive Declares : Operations → Option String → Operation → Prop
  | anonymous (operation : Operation) : Declares (.single operation) none operation
  | named {operations : Table Operation} {name : String} {operation : Operation}
    (hm : (name, operation) ∈ operations) : Declares (.named operations) (some name) operation

/-- An operation that is chosen goes by its own name, which is also the requested one if there is
such. Only one without a name is chosen whatever is requested, and goes by that. -/
theorem declares_of_chosen (h : chosen operations name = .ok (label, operation)) :
    ∃ declared, Declares operations declared operation ∧ label = declared.or name ∧
      ∀ requested, name = some requested → declared = some requested ∨ declared = none := by
  cases operations with
  | single =>
    cases h
    exact ⟨none, .anonymous operation, rfl, fun _ _ => .inr rfl⟩
  | named operations =>
    cases name with
    | some requested =>
      rw [chosen_named] at h
      cases hf : Table.get? requested operations with
      | none =>
        rw [hf] at h
        cases h
      | some =>
        rw [hf] at h
        cases h
        refine ⟨some requested, .named (Table.mem_of_get? hf), rfl, ?_⟩
        rintro _ ⟨⟩
        exact .inl rfl
    | none =>
      match operations with
      | [] => cases h
      | [(key, _)] =>
        cases h
        exact ⟨some key, .named (List.mem_singleton_self _), rfl, nofun⟩
      | _ :: _ :: _ => cases h

/-- A plan is made from an operation of the document. If that one is declared with a name, the plan
goes by this name and no other, and the request may give no other, either; if it is the document's
only operation and has no name, the plan goes by the name that the request gives, or by none. It is
this name that deny lists are about, and every denial. -/
theorem operation_goes_by_its_name
    (h : ofDocument schema limit document name supplied = .ok plan) :
    ∃ declared operation, Declares document.operations declared operation ∧
      ofOperation schema limit document.fragments plan.name operation supplied = .ok plan ∧
      (∀ n, declared = some n → ∀ m, plan.name = some m ↔ m = n) ∧
      (declared = none → plan.name = name) ∧
      (∀ requested, name = some requested → declared = some requested ∨ declared = none) ∧
      (∀ names fields capabilities,
        Gate.Denies ⟨.denyList names fields, capabilities⟩ (.operation plan) ↔
          capabilities.operationCheck = true ∧ ∃ n ∈ names, declared.or name = some n) ∧
      ∀ (tree : PolicyTree) capabilities denial,
        Gate.checkOperation ⟨tree.policy, capabilities⟩ plan = .deny denial →
          denial.target = .operation (declared.or name) := by
  obtain ⟨operation, hc, ho⟩ := exists_of_ofDocument h
  obtain ⟨declared, hd, hlabel, hrequested⟩ := declares_of_chosen hc
  refine ⟨declared, operation, hd, ho, ?_, ?_, hrequested, fun names fields capabilities => ?_,
    fun tree capabilities denial hdeny => ?_⟩
  · rintro n rfl m
    rw [hlabel, Option.some_or, Option.some_inj]
    exact eq_comm
  · rintro rfl
    exact hlabel
  · rw [← hlabel]
    exact denies_denyList_iff
  · have hanswer : Gate.answer ⟨tree.policy, capabilities⟩ (.operation plan) = .deny denial := hdeny
    rw [← hlabel]
    exact target_of_answer hanswer

end GraphGate.Plan

namespace GraphGate.Sample

open Query Plan

/-- A document with several operations, of which one is requested. -/
theorem operation_goes_by_its_name_crowded :
    ofDocument schema 64 crowdedDocument (some "Find") [] =
        .ok { spreadPlan with name := some "Find" } ∧
      ∃ operation, Declares crowdedDocument.operations (some "Find") operation ∧
        ofOperation schema 64 crowdedDocument.fragments (some "Find") operation [] =
          .ok { spreadPlan with name := some "Find" } := by
  have h : ofDocument schema 64 crowdedDocument (some "Find") [] =
      .ok { spreadPlan with name := some "Find" } := by cbv
  obtain ⟨declared, operation, hd, ho, -, -, hrequested, -⟩ := operation_goes_by_its_name h
  refine ⟨h, operation, ?_, ho⟩
  rcases hrequested "Find" rfl with rfl | rfl
  · exact hd
  · cases hd

/-- The query `{ user(id: 7) { name } }` goes by any name that a request gives, though no operation
is declared with it. -/
theorem ofDocument_document_ghost :
    ofDocument schema 64 document (some "Ghost") [] = .ok { plan with name := some "Ghost" } ∧
      ∃ operation, Declares document.operations none operation ∧
        ∀ other, ¬ Declares document.operations (some "Ghost") other :=
  ⟨by cbv, _, .anonymous _, fun _ => nofun⟩

end GraphGate.Sample
