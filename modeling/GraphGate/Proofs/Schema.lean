import GraphGate.Proofs.Success
import GraphGate.Schema.Build
import Mathlib.Data.List.Nodup

/-! What is found under a name has that name, and definitions without repeats have distinct ones. -/
namespace GraphGate

variable {ρ : Type} {schema : Schema ρ} {name : String}

theorem name_of_find? {definition : TypeDefinition ρ} (h : schema.find? name = some definition) :
    definition.name = name := by
  simpa using List.find?_some h

theorem object?_of_find? {type : ObjectType ρ} (h : schema.find? name = some (.object type)) :
    schema.object? name = some type := by
  rw [Schema.object?, h]

theorem find?_of_object? {type : ObjectType ρ} (h : schema.object? name = some type) :
    schema.find? name = some (.object type) := by
  unfold Schema.object? at h
  split at h
  · next type' ht =>
    cases h
    exact ht
  · cases h

theorem mem_of_object? {type : ObjectType ρ} (h : schema.object? name = some type) :
    .object type ∈ schema.types := List.mem_of_find?_eq_some (find?_of_object? h)

theorem name_of_object? {type : ObjectType ρ} (h : schema.object? name = some type) :
    type.name = name := name_of_find? (find?_of_object? h)

theorem name_of_field? {type : ObjectType ρ} {definition : FieldDefinition ρ}
    (h : type.field? name = some definition) : definition.name = name := by
  simpa using List.find?_some h

theorem map_placeNamed {α : Type} (key : α → String) (a : α) (as : List α) :
    (placeNamed key a as).map key =
      if key a ∈ as.map key then as.map key else as.map key ++ [key a] := by
  induction as with
  | nil => rfl
  | cons b rest ih =>
    rw [placeNamed]
    by_cases hb : key b = key a
    · simp [hb]
    · rw [if_neg hb, List.map_cons, ih, List.map_cons]
      by_cases hm : key a ∈ rest.map key
      · rw [if_pos hm, if_pos (.tail _ hm)]
      · rw [if_neg hm, if_neg (by simpa [Ne.symm hb] using hm), List.cons_append]

theorem nodup_withoutRepeats {α : Type} (key : α → String) (as : List α) :
    ((withoutRepeats key as).map key).Nodup := by
  have hfold : ∀ placed : List α, (placed.map key).Nodup →
      ((as.foldl (fun placed a => placeNamed key a placed) placed).map key).Nodup := by
    induction as with
    | nil => exact fun _ hp => hp
    | cons a rest ih =>
      intro placed hp
      refine ih _ ?_
      rw [map_placeNamed]
      split
      · exact hp
      · next ha =>
        rw [← List.concat_eq_append]
        exact hp.concat ha
  exact hfold [] List.nodup_nil

/-- Arguments are kept by their names: no field declares two of one name. -/
def Schema.ArgumentsDistinct (schema : Schema ρ) : Prop :=
  ∀ type, .object type ∈ schema.types → ∀ field ∈ type.fields,
    (field.arguments.map (·.name)).Nodup

/-- What is built has passed all checks. -/
theorem checked_of_build {definitions : List (TypeDefinition ρ)} {query : String}
    {mutation : Option String} (h : Schema.build definitions query mutation = .ok schema) :
    schema = ⟨Schema.builtinScalars.map .scalar ++ definitions, query, mutation⟩ ∧
      schema.checkRoot query = .ok () ∧ mutation.forM schema.checkRoot = .ok () ∧
      (definitions.flatMap Schema.references).forM schema.checkReference = .ok () := by
  unfold Schema.build at h
  split at h
  · cases h
  · obtain ⟨⟨⟩, hquery, h⟩ := exists_of_bind_ok h
    obtain ⟨⟨⟩, hmutation, h⟩ := exists_of_bind_ok h
    obtain ⟨⟨⟩, hreferences, h⟩ := exists_of_bind_ok h
    cases h
    exact ⟨rfl, hquery, hmutation, hreferences⟩

theorem scalar_or_mem {definitions : List (TypeDefinition ρ)} {definition : TypeDefinition ρ}
    (h : definition ∈ Schema.builtinScalars.map .scalar ++ definitions) :
    (∃ name, definition = .scalar name) ∨ definition ∈ definitions := by
  rcases List.mem_append.mp h with h | h
  · obtain ⟨name, -, rfl⟩ := List.mem_map.mp h
    exact .inl ⟨name, rfl⟩
  · exact .inr h

/-- So it is in every schema that is built of fields whose arguments are without repeats. -/
theorem argumentsDistinct_of_build {definitions : List (TypeDefinition ρ)} {query : String}
    {mutation : Option String} (h : Schema.build definitions query mutation = .ok schema)
    (hd : ∀ type, .object type ∈ definitions → ∀ field ∈ type.fields,
      ∃ declared, field.arguments = withoutRepeats (·.name) declared) :
    schema.ArgumentsDistinct := by
  intro type ht field hf
  obtain ⟨rfl, -⟩ := checked_of_build h
  rcases scalar_or_mem ht with ⟨_, hs⟩ | ht
  · cases hs
  · obtain ⟨declared, he⟩ := hd type ht field hf
    rw [he]
    exact nodup_withoutRepeats _ declared

/-- So are the fields of input objects. -/
def Schema.InputsDistinct (schema : Schema ρ) : Prop :=
  ∀ name fields, .input name fields ∈ schema.types → (fields.map (·.name)).Nodup

theorem inputsDistinct_of_build {definitions : List (TypeDefinition ρ)} {query : String}
    {mutation : Option String} (h : Schema.build definitions query mutation = .ok schema)
    (hd : ∀ name fields, .input name fields ∈ definitions →
      ∃ declared, fields = withoutRepeats (·.name) declared) : schema.InputsDistinct := by
  intro name fields hm
  obtain ⟨rfl, -⟩ := checked_of_build h
  rcases scalar_or_mem hm with ⟨_, hs⟩ | hm
  · cases hs
  · obtain ⟨declared, rfl⟩ := hd name fields hm
    exact nodup_withoutRepeats _ declared

theorem nodup_of_field? {schema : Schema ρ} (hd : schema.ArgumentsDistinct)
    {container : ObjectType ρ} {type name : String} {definition : FieldDefinition ρ}
    (ht : schema.object? type = some container) (hf : container.field? name = some definition) :
    (definition.arguments.map (·.name)).Nodup :=
  hd container (mem_of_object? ht) definition (List.mem_of_find?_eq_some hf)

end GraphGate
