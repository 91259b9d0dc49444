import GraphGate.Proofs.Execution.Behaviour
import GraphGate.Proofs.Execution.Denial
import GraphGate.Proofs.Execution.Interference
import GraphGate.Proofs.Gate

/-! Requests and denied fields: how such fields would find their values makes no difference. -/
namespace GraphGate

open Execution

variable {ρ ρ₁ ρ₂ σ : Type}

theorem exists_wellSelected_of_ofQuery {schema : Schema ρ} {limit : Nat}
    {query name : Option String} {supplied : Table Json} {plan : Plan}
    (h : Plan.ofQuery schema limit query name supplied = .ok plan) :
    ∃ type, schema.object? plan.root = some type ∧ WellSelected schema plan.fields type := by
  unfold Plan.ofQuery at h
  split at h
  · cases h
  · split at h
    · cases h
    · split at h
      · cases h
      · exact Plan.exists_wellSelected_of_ofDocument h

theorem fenced_of_operation {plan : Plan} {decision : Decision} {t : Transcript ρ}
    {errors : List ResponseError} (h : ∀ x ∈ t, x = .operation plan decision) :
    Fenced t errors where
  asked := by
    intro event value hm
    cases h _ hm
  inert := by
    intro context denial hm
    cases h _ hm

theorem fenced_append {plan : Plan} {decision : Decision} {t t' : Transcript ρ}
    {errors : List ResponseError} (h : ∀ x ∈ t, x = .operation plan decision)
    (h' : Fenced t' errors) : Fenced (t ++ t') errors where
  asked := by
    have ha : Fenced t errors := fenced_of_operation h
    exact allAsked_append ha.asked h'.asked
  inert := by
    intro context denial hm
    rcases List.mem_append.mp hm with hm | hm
    · cases h _ hm
    · refine inert_append_right (h'.inert context denial hm) List.filter_nil ?_
      intro x hx hr
      rw [h x hx] at hr
      cases hr

/-- Fields are fenced in every execution. -/
theorem fenced_of_gives {e : Executor ρ σ} (hc : e.gate.capabilities.fieldCheck = true)
    {entry : Entry} {t : Transcript ρ} {envelope : Envelope}
    (h : (e.execute entry).Gives t envelope) : Fenced t envelope.errors := by
  unfold Executor.execute at h
  split at h
  · obtain ⟨rfl, rfl⟩ := Dialogue.gives_done h
    exact ⟨nofun, nofun⟩
  · next plan hplan =>
    obtain ⟨type, ht, hw⟩ := exists_wellSelected_of_ofQuery hplan
    rcases cases_of_gives ht h with ⟨denial, rfl, rfl⟩ | ⟨t₁, t₂, c, rfl, ha, hs, rfl⟩
    · exact fenced_of_operation fun x hx => List.mem_singleton.mp hx
    · exact fenced_append ha (tidy_of_completesFields hc hs hw).toFenced

/-- If two executors differ only in how the fields at denied coordinates find their values, then
requests take the same time, leave the same world behind, with all that subscribers and resolvers
put down in it, and give the same envelopes. In every execution, where a denied field is reached,
the denial is the one error at its path, no resolver is called for it, and no resolved value is
published. -/
theorem denied_fields_inert {e₁ : Executor ρ₁ σ} {e₂ : Executor ρ₂ σ} {tree : PolicyTree}
    (hc : e₁.gate.capabilities.fieldCheck = true) (hp : e₁.gate.policy = tree.policy)
    (h : e₁.AgreeOutside tree.denies e₂) (parallel : Bool) (stop : Option Nat) (now : Nat)
    (world : World σ) (entries : List Entry) :
    (⟨e₁, parallel⟩ : Gateway ρ₁ σ).resolveEntries stop now world entries =
        (⟨e₂, parallel⟩ : Gateway ρ₂ σ).resolveEntries stop now world entries ∧
      (∀ envelope ∈ ((⟨e₁, parallel⟩ : Gateway ρ₁ σ).resolveEntries stop now world entries).results,
        ∃ entry ∈ entries, ∃ t, (e₁.execute entry).Gives t envelope ∧ t.Obeys tree.policy) ∧
      ∀ entry t envelope, (e₁.execute entry).Gives t envelope → t.Obeys tree.policy →
        AllAsked t ∧ ∀ context decision, .field context decision ∈ t →
          tree.denies context.coordinate = true →
            ∃ denial, decision = .deny denial ∧ Inert t envelope.errors context denial := by
  have hg : e₁.Guards tree.denies := by
    refine ⟨hc, ?_⟩
    intro context ha
    rw [hp, isAllow_checkField] at ha
    simpa using ha
  refine ⟨?_, ?_, ?_⟩
  · have ht : (entries.map fun entry => e₁.task (e₁.execute entry)) =
        entries.map fun entry => e₂.task (e₂.execute entry) :=
      List.map_congr_left fun entry _ => task_eq h hg entry
    unfold Gateway.resolveEntries
    rw [ht]
  · intro envelope hm
    obtain ⟨entry, he, t, ht, ho⟩ := Gateway.exists_gives_of_mem_results hm
    exact ⟨entry, he, t, ht, hp ▸ ho⟩
  · intro entry t envelope ht ho
    have hf := fenced_of_gives hc ht
    refine ⟨hf.asked, ?_⟩
    intro context decision hm hd
    have hdecision : decision = tree.policy.checkField context := ho _ hm
    have hallow := isAllow_checkField context tree
    rw [← hdecision, hd] at hallow
    cases decision with
    | allow => cases hallow
    | deny denial => exact ⟨denial, rfl, hf.inert context denial hm⟩

end GraphGate

namespace GraphGate.Sample

/-- Users whose names are found in some way. -/
def userNaming (resolution : Resolution Unit) : ObjectType Unit :=
  ⟨"User", [⟨⟨"name", .named "String" false, []⟩, resolution⟩], none⟩

def schemaNaming (resolution : Resolution Unit) : Schema Unit where
  types := [.scalar "ID", .scalar "String", .object query, .object (userNaming resolution)]
  query := "Query"
  mutation := none

/-- Names of users are denied. -/
def tree : PolicyTree := .composite [.allowAll, .denyList [] ["User.name"]]

/-- An executor that keeps a log of paths. -/
def executor (resolution : Resolution Unit) : Executor Unit (List Path) where
  schema := schemaNaming resolution
  registry := .empty
  gate := ⟨tree.policy, ⟨true, true⟩⟩
  sink := ⟨fun _ event log => (event.value, event.path :: log)⟩
  resolvers := fun _ _ => .finish (.value (.obj [("name", .str "Ann")]))
  options := .standard
  root := .null

theorem eq_of_object? {r : Resolution Unit} {type : String} {c : ObjectType Unit}
    (h : (schemaNaming r).object? type = some c) : c = query ∨ c = userNaming r := by
  have hm := mem_of_object? h
  simpa [schemaNaming] using hm

theorem agreeOutside_executor (r r' : Resolution Unit) :
    (executor r).AgreeOutside tree.denies (executor r') where
  outline := rfl
  gate := rfl
  sink := rfl
  options := rfl
  root := rfl
  ways := by
    intro type field c₁ c₂ f₁ f₂ h₁ h₂ hf₁ hf₂ hd
    have hn₁ := name_of_object? h₁
    have hn₂ := name_of_object? h₂
    rcases eq_of_object? h₁ with rfl | rfl
    · rcases eq_of_object? h₂ with rfl | rfl
      · rw [hf₁, Option.some.injEq] at hf₂
        subst hf₂
        have hm := List.mem_of_find?_eq_some hf₁
        rw [List.mem_singleton.mp hm]
        rfl
      · rw [← hn₂] at hn₁
        exact absurd hn₁ (by simp [query, userNaming])
    · have hm := List.mem_of_find?_eq_some hf₁
      have hname := name_of_field? hf₁
      rw [List.mem_singleton.mp hm] at hname
      rw [← hn₁, ← hname] at hd
      have hd' : tree.denies (coordinate "User" "name") = false := hd
      exact absurd hd' (by decide)

theorem denied_fields_inert_executor :
    (⟨executor (.property "name"), true⟩ : Gateway Unit (List Path)).resolveEntries none 0
        ⟨false, []⟩ [⟨some "{ user(id: 7) { name } }", none, []⟩] =
      (⟨executor (.callable ()), true⟩ : Gateway Unit (List Path)).resolveEntries none 0
        ⟨false, []⟩ [⟨some "{ user(id: 7) { name } }", none, []⟩] :=
  (denied_fields_inert rfl rfl (agreeOutside_executor _ _) true none 0 ⟨false, []⟩ _).1

end GraphGate.Sample
