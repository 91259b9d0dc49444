import GraphGate.Proofs.Execution.Completion
import GraphGate.Proofs.Execution.Derivation
import GraphGate.Proofs.Plan.WellFormed
import GraphGate.Proofs.Schema
import GraphGate.Proofs.Table

/-! The data of a response conforms to what was selected: every object has the selected fields in
their order, and every place holds a value of its declared type. -/
namespace GraphGate

variable {ρ : Type} {schema : Schema ρ}

mutual

/-- A value at a type, where `nodes` are selected on an object. Null stands only where it may. -/
inductive ValueConforms (schema : Schema ρ) : List FieldNode → TypeRef → Json → Prop
  | null {nodes : List FieldNode} {type : TypeRef} (hn : type.nullable = true) :
    ValueConforms schema nodes type .null
  | list {nodes : List FieldNode} {element : TypeRef} {nullable : Bool} {elements : List Json}
    (he : ∀ v ∈ elements, ValueConforms schema nodes element v) :
    ValueConforms schema nodes (.list element nullable) (.arr elements)
  | object {nodes : List FieldNode} {name : String} {nullable : Bool} {type : ObjectType ρ}
    {pairs : Table Json} (ht : schema.find? name = some (.object type))
    (hf : FieldsConform schema nodes type pairs) :
    ValueConforms schema nodes (.named name nullable) (.obj pairs)
  | scalar {nodes : List FieldNode} {name name' : String} {nullable : Bool} {v : Json}
    (ht : schema.find? name = some (.scalar name')) (hn : v ≠ .null) (hs : ScalarHolds name v) :
    ValueConforms schema nodes (.named name nullable) v
  | enum {nodes : List FieldNode} {name name' : String} {values : List String} {nullable : Bool}
    {s : String} (ht : schema.find? name = some (.enum name' values)) (hs : s ∈ values) :
    ValueConforms schema nodes (.named name nullable) (.str s)

/-- The value of a field: the name of the type it is selected on, or a value at its own type. -/
inductive FieldConforms (schema : Schema ρ) : FieldNode → ObjectType ρ → Json → Prop
  | typename {node : FieldNode} {container : ObjectType ρ} (hn : node.name = Plan.typename) :
    FieldConforms schema node container (.str container.name)
  | field {node : FieldNode} {container : ObjectType ρ} {definition : FieldDefinition ρ} {v : Json}
    (hn : node.name ≠ Plan.typename) (hd : container.field? node.name = some definition)
    (hv : ValueConforms schema node.children definition.type v) :
    FieldConforms schema node container v

/-- The fields of an object: the selected ones and no others, in their order. -/
inductive FieldsConform (schema : Schema ρ) : List FieldNode → ObjectType ρ → Table Json → Prop
  | nil {container : ObjectType ρ} : FieldsConform schema [] container []
  | cons {node : FieldNode} {nodes : List FieldNode} {container : ObjectType ρ} {v : Json}
    {pairs : Table Json} (hv : FieldConforms schema node container v)
    (hs : FieldsConform schema nodes container pairs) :
    FieldsConform schema (node :: nodes) container ((node.outputName, v) :: pairs)

end

theorem names_of_fieldsConform {nodes : List FieldNode} {container : ObjectType ρ}
    {pairs : Table Json} (h : FieldsConform schema nodes container pairs) :
    pairs.names = outputNames nodes := by
  induction nodes generalizing pairs with
  | nil =>
    cases h
    rfl
  | cons node nodes ih =>
    cases h with
    | cons _ hs => simpa [Table.names, outputNames] using ih hs

theorem ofPairs_of_fieldsConform {nodes : List FieldNode} {container : ObjectType ρ}
    {pairs : Table Json} (hw : WellSelected schema nodes container)
    (h : FieldsConform schema nodes container pairs) : Table.ofPairs pairs = pairs := by
  apply Table.ofPairs_of_nodup
  rw [names_of_fieldsConform h]
  exact hw.distinct

namespace Execution

variable {setting : Setting ρ} {plan : Plan} {node : FieldNode} {t : Transcript ρ}

theorem valueConforms_of_leaf? {nodes : List FieldNode} {name : String} {nullable : Bool}
    {definition : TypeDefinition ρ} {value v : Json} (hv : value ≠ .null)
    (ht : schema.find? name = some definition) (h : leaf? definition value = some v) :
    ValueConforms schema nodes (.named name nullable) v := by
  have hname := name_of_find? ht
  unfold leaf? at h
  split at h
  · cases hname
    split at h
    · next n =>
      split at h
      · next hn =>
        cases h
        exact .scalar ht (by simp) ⟨n, rfl, Coercion.isInt32_iff.mp hn⟩
      · cases h
    · cases h
  · cases hname
    split at h
    · next n =>
      cases h
      exact .scalar ht (by simp) ⟨n, rfl⟩
    · cases h
  · cases hname
    split at h
    · next s =>
      cases h
      exact .scalar ht (by simp) ⟨s, rfl⟩
    · cases h
  · cases hname
    split at h
    · next s =>
      cases h
      exact .scalar ht (by simp) ⟨s, rfl⟩
    · next n =>
      cases h
      exact .scalar ht (by simp) ⟨toString n, rfl⟩
    · cases h
  · cases hname
    split at h
    · next b =>
      cases h
      exact .scalar ht (by simp) ⟨b, rfl⟩
    · cases h
  · next name' _ _ _ _ _ =>
    rw [TypeDefinition.name] at hname
    subst hname
    cases h
    exact .scalar ht hv (by simp [ScalarHolds])
  · next name' values =>
    split at h
    · next s =>
      split at h
      · next hs =>
        cases h
        exact .enum ht (by simpa using hs)
      · cases h
    · cases h
  · cases h
  · cases h

mutual

/-- The value of a field conforms to its selection. -/
theorem fieldConforms_of_completes : ∀ {node : FieldNode} {container : ObjectType ρ}
    {parent : Json} {path : Path} {t : Transcript ρ} {c : Completion Json} {v : Json},
    CompletesField setting plan node container parent path t c →
      node.WellFormed setting.schema container → c.value = some v →
      FieldConforms setting.schema node container v
  | _, _, _, _, _, _, _, .typename hn, _, h => by
    cases h
    exact .typename hn
  | _, _, _, _, _, _, _, .undefined hn hd, hw, _ => (not_undefined hw hn hd).elim
  | _, _, _, _, _, _, _, .failed hn hd _, hw, h => by
    rcases value_of_orNull h with h | ⟨-, rfl, hnull⟩
    · cases h
    · exact .field hn hd (.null hnull)
  | _, _, _, _, _, _, _, .resolved hn hd _ hv, hw, h =>
    .field hn hd (valueConforms_of_completes hv (fits_of_wellFormed hw hn hd) h)

theorem fieldsConform_of_completes : ∀ {nodes : List FieldNode} {container : ObjectType ρ}
    {parent : Json} {path : Path} {t : Transcript ρ} {c : Completion (List (String × Json))}
    {pairs : List (String × Json)},
    CompletesFields setting plan nodes container parent path t c →
      (∀ node ∈ nodes, node.WellFormed setting.schema container) → c.value = some pairs →
      FieldsConform setting.schema nodes container pairs
  | _, _, _, _, _, _, _, .nil, _, h => by
    cases h
    exact .nil
  | _, _, _, _, _, _, _, .cons hf hs, hw, h => by
    obtain ⟨v, rest, hv, hr, rfl⟩ := exists_of_both h
    exact .cons (fieldConforms_of_completes hf (hw _ (by simp)) hv)
      (fieldsConform_of_completes hs (fun node hm => hw node (by simp [hm])) hr)

theorem valueConforms_of_completes : ∀ {node : FieldNode} {type : TypeRef} {value : Json}
    {path : Path} {t : Transcript ρ} {c : Completion Json} {v : Json},
    CompletesValue setting plan node type value path t c →
      Fits setting.schema node.children type → c.value = some v →
      ValueConforms setting.schema node.children type v
  | _, _, _, _, _, _, _, .null, _, h => by
    split at h
    · next hn =>
      cases h
      exact .null hn
    · cases h
  | _, _, _, _, _, _, _, .list he, hb, h => by
    rcases value_of_orNull h with h | ⟨-, rfl, hn⟩
    · obtain ⟨vs, hv, rfl⟩ := exists_of_map h
      exact .list (elementsConform_of_completes he hb hv)
    · exact .null hn
  | _, _, _, _, _, _, _, .noList _ _, _, h => by
    rcases value_of_orNull h with h | ⟨-, rfl, hn⟩
    · cases h
    · exact .null hn
  | _, _, _, _, _, _, _, .object _ ht hs, hb, h => by
    have hw := hb _ (object?_of_find? ht)
    rcases value_of_orNull h with h | ⟨-, rfl, hn⟩
    · obtain ⟨pairs, hp, rfl⟩ := exists_of_map h
      have hf := fieldsConform_of_completes hs hw.wellFormed hp
      rw [ofPairs_of_fieldsConform hw hf]
      exact .object ht hf
    · exact .null hn
  | _, _, _, _, _, _, _, .leaf hv ht hl, _, h => by
    cases h
    exact valueConforms_of_leaf? hv ht hl
  | _, _, _, _, _, _, _, .badLeaf _ _ _ _, _, h => by
    rcases value_of_orNull h with h | ⟨-, rfl, hn⟩
    · cases h
    · exact .null hn
  | _, _, _, _, _, _, _, .noType _ _, _, h => by
    rcases value_of_orNull h with h | ⟨-, rfl, hn⟩
    · cases h
    · exact .null hn

theorem elementsConform_of_completes : ∀ {node : FieldNode} {type : TypeRef} {index : Nat}
    {values : List Json} {path : Path} {t : Transcript ρ} {c : Completion (List Json)}
    {vs : List Json}, CompletesElements setting plan node type index values path t c →
      Fits setting.schema node.children type → c.value = some vs →
      ∀ v ∈ vs, ValueConforms setting.schema node.children type v
  | _, _, _, _, _, _, _, _, .nil, _, h => by
    cases h
    simp
  | _, _, _, _, _, _, _, _, .cons hv hs, hb, h => by
    obtain ⟨v, rest, hv', hr, rfl⟩ := exists_of_both h
    intro v' hm
    rcases List.mem_cons.mp hm with rfl | hm
    · exact valueConforms_of_completes hv hb hv'
    · exact elementsConform_of_completes hs hb hr v' hm

end

/-- Data that is not null holds what was selected, whatever subscribers, the policy and resolvers
answer, in time or not. -/
theorem data_conforms {limit : Nat} {document : Query.Document} {name : Option String}
    {supplied : Table Json} {root : Json} {envelope : Envelope}
    (hp : Plan.ofDocument setting.schema limit document name supplied = .ok plan)
    (hg : (execute setting root plan).Gives t envelope) (hd : envelope.data ≠ .null) :
    ∃ type pairs, setting.schema.object? plan.root = some type ∧ envelope.data = .obj pairs ∧
      FieldsConform setting.schema plan.fields type pairs := by
  obtain ⟨type, ht, hw⟩ := Plan.exists_wellSelected_of_ofDocument hp
  rcases cases_of_gives ht hg with ⟨denial, -, rfl⟩ | ⟨t₁, t₂, c, -, -, hs, rfl⟩
  · exact absurd rfl hd
  · cases hc : c.value with
    | none =>
      rw [hc] at hd
      exact absurd rfl hd
    | some pairs =>
      have hf := fieldsConform_of_completes hs hw.wellFormed hc
      exact ⟨type, pairs, ht, by simp [ofPairs_of_fieldsConform hw hf], hf⟩

end Execution

end GraphGate

namespace GraphGate.Sample

open Execution

def setting : Setting Unit := ⟨schema, .empty, ⟨false, false⟩⟩

def nameNode : FieldNode := ⟨none, "name", [], [], ⟨1, 17⟩⟩

def userNode : FieldNode := ⟨none, "user", [("id", .str "7")], [nameNode], ⟨1, 3⟩⟩

def userContext : Context :=
  ⟨⟨"user", .named "User" true, [⟨"id", .named "ID" false, none⟩]⟩, userNode, "Query",
    [.field "user"], plan⟩

def nameContext : Context :=
  ⟨⟨"name", .named "String" false, []⟩, nameNode, "User", [.field "user", .field "name"], plan⟩

/-- The user is found, and nobody replaces a value. -/
def transcript (name : Json) : Transcript Unit :=
  [.published .preResolve (Context.event userContext none) none,
    .called () (Context.invocation userContext .null) (.ok (.obj [("name", name)])),
    .published .postResolve (Context.event userContext (some (.obj [("name", name)])))
      (some (.obj [("name", name)])),
    .published .preResolve (Context.event nameContext none) none,
    .published .postResolve (Context.event nameContext (some name)) (some name)]

theorem gives_transcript : (execute setting .null plan).Gives (transcript (.str "Ann"))
    ⟨.obj [("user", .obj [("name", .str "Ann")])], []⟩ :=
  .publish (.call (.publish (.publish (.publish .done))))

theorem data_conforms_transcript :
    (execute setting .null plan).Gives (transcript (.str "Ann"))
        ⟨.obj [("user", .obj [("name", .str "Ann")])], []⟩ ∧
      ∃ type pairs, setting.schema.object? plan.root = some type ∧
        Json.obj [("user", .obj [("name", .str "Ann")])] = .obj pairs ∧
        FieldsConform setting.schema plan.fields type pairs :=
  ⟨gives_transcript, data_conforms ofDocument_document gives_transcript (by simp)⟩

end GraphGate.Sample
