import GraphGate.Proofs.Schema

/-! What is built is closed: the roots are objects, and every type that is referred to is there and
fits its place. -/
namespace GraphGate.Schema

variable {ρ : Type} {schema : Schema ρ}

/-- Whether a type may stand where values go in, or where they come out. -/
def Place.admits (place : Place) (definition : TypeDefinition ρ) : Bool :=
  match place with
  | .input => definition.isInput
  | .output => definition.isOutput

/-- The type that is referred to is there and fits its place. -/
def Resolves (schema : Schema ρ) (r : Reference) : Prop :=
  ∃ definition, schema.find? r.type = some definition ∧ r.place.admits definition = true

structure Closed (schema : Schema ρ) : Prop where
  query : ∃ type, schema.object? schema.query = some type
  mutation : ∀ name, schema.mutation = some name → ∃ type, schema.object? name = some type
  references : ∀ definition ∈ schema.types, ∀ r ∈ Schema.references definition, schema.Resolves r

theorem exists_of_checkRoot {name : String} (h : schema.checkRoot name = .ok ()) :
    ∃ type, schema.object? name = some type := by
  unfold checkRoot at h
  split at h
  · next type ht => exact ⟨type, object?_of_find? ht⟩
  · cases h
  · cases h

theorem resolves_of_checkReference {r : Reference} (h : schema.checkReference r = .ok ()) :
    schema.Resolves r := by
  unfold checkReference at h
  split at h
  · cases h
  · next definition ht hp =>
    split at h
    · next ha => exact ⟨definition, ht, by rw [hp]; exact ha⟩
    · cases h
  · next definition ht hp =>
    split at h
    · next ha => exact ⟨definition, ht, by rw [hp]; exact ha⟩
    · cases h

/-- Built-in scalars refer to nothing. -/
theorem mem_of_references {definitions : List (TypeDefinition ρ)} {definition : TypeDefinition ρ}
    {r : Reference} (hd : definition ∈ builtinScalars.map .scalar ++ definitions)
    (hr : r ∈ references definition) : definition ∈ definitions := by
  rcases scalar_or_mem hd with ⟨name, rfl⟩ | hd
  · cases hr
  · exact hd

theorem closed_of_build {definitions : List (TypeDefinition ρ)} {query : String}
    {mutation : Option String} (h : build definitions query mutation = .ok schema) :
    schema.Closed := by
  obtain ⟨rfl, hquery, hmutation, hreferences⟩ := checked_of_build h
  refine ⟨exists_of_checkRoot hquery, ?_, ?_⟩
  · rintro name rfl
    exact exists_of_checkRoot hmutation
  · intro definition hd r hr
    have hm : r ∈ definitions.flatMap references :=
      List.mem_flatMap.mpr ⟨definition, mem_of_references hd hr, hr⟩
    exact resolves_of_checkReference (forall_of_forM_ok hreferences r hm)

/-- The type of a field is there, and its values may come out. -/
theorem Closed.exists_isOutput_of_field? (hc : schema.Closed) {container : ObjectType ρ}
    (hm : .object container ∈ schema.types) {name : String} {definition : FieldDefinition ρ}
    (hf : container.field? name = some definition) :
    ∃ inner, schema.find? definition.type.innermost = some inner ∧ inner.isOutput = true := by
  have hfield : definition ∈ container.fields := List.mem_of_find?_eq_some hf
  have hr : ⟨definition.type.innermost, .output, coordinate container.name definition.name⟩ ∈
      Schema.references (.object container) :=
    List.mem_flatMap.mpr ⟨definition, hfield, List.mem_cons_self⟩
  exact hc.references _ hm _ hr

end GraphGate.Schema
