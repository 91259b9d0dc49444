import GraphGate.Execution.Completion
import GraphGate.Proofs.Execution.Resolution

/-! How executions go, as derivations: one rule for each way a field, the fields of an object, a
value or the elements of a list come to their completion. -/
namespace GraphGate.Execution

open Dialogue (Gives gives_bind gives_done gives_operationDecision)

variable {ρ : Type} {setting : Setting ρ} {plan : Plan}

mutual

/-- A field at its path. -/
inductive CompletesField (setting : Setting ρ) (plan : Plan) :
    FieldNode → ObjectType ρ → Json → Path → Transcript ρ → Completion Json → Prop
  | typename {node : FieldNode} {container : ObjectType ρ} {parent : Json} {path : Path}
    (hn : node.name = Plan.typename) :
    CompletesField setting plan node container parent path [] (.ok (.str container.name))
  | undefined {node : FieldNode} {container : ObjectType ρ} {parent : Json} {path : Path}
    (hn : node.name ≠ Plan.typename) (hd : container.field? node.name = none) :
    CompletesField setting plan node container parent path []
      ⟨some .null, [.ofField (.fieldUndefined container.name node.name) node path]⟩
  | failed {node : FieldNode} {container : ObjectType ρ} {parent : Json} {path : Path}
    {definition : FieldDefinition ρ} {t : Transcript ρ} {e : FieldError}
    (hn : node.name ≠ Plan.typename) (hd : container.field? node.name = some definition)
    (hr : Resolves setting definition.resolution
      ⟨definition.toFieldSignature, node, container.name, path, plan⟩ parent t (.error e)) :
    CompletesField setting plan node container parent path t
      ((Completion.failed (.ofField e node path)).orNull definition.type.nullable)
  | resolved {node : FieldNode} {container : ObjectType ρ} {parent : Json} {path : Path}
    {definition : FieldDefinition ρ} {t t' : Transcript ρ} {value : Json} {c : Completion Json}
    (hn : node.name ≠ Plan.typename) (hd : container.field? node.name = some definition)
    (hr : Resolves setting definition.resolution
      ⟨definition.toFieldSignature, node, container.name, path, plan⟩ parent t (.ok value))
    (hv : CompletesValue setting plan node definition.type value path t' c) :
    CompletesField setting plan node container parent path (t ++ t') c

/-- The fields of an object at the object's path. -/
inductive CompletesFields (setting : Setting ρ) (plan : Plan) :
    List FieldNode → ObjectType ρ → Json → Path → Transcript ρ →
      Completion (List (String × Json)) → Prop
  | nil {container : ObjectType ρ} {parent : Json} {path : Path} :
    CompletesFields setting plan [] container parent path [] (.ok [])
  | cons {node : FieldNode} {nodes : List FieldNode} {container : ObjectType ρ} {parent : Json}
    {path : Path} {t t' : Transcript ρ} {c : Completion Json}
    {c' : Completion (List (String × Json))}
    (hf : CompletesField setting plan node container parent (path ++ [.field node.outputName]) t c)
    (hs : CompletesFields setting plan nodes container parent path t' c') :
    CompletesFields setting plan (node :: nodes) container parent path (t ++ t')
      (.both (fun value pairs => (node.outputName, value) :: pairs) c c')

/-- A value at a type. -/
inductive CompletesValue (setting : Setting ρ) (plan : Plan) :
    FieldNode → TypeRef → Json → Path → Transcript ρ → Completion Json → Prop
  | null {node : FieldNode} {type : TypeRef} {path : Path} :
    CompletesValue setting plan node type .null path []
      (if type.nullable then .ok .null else .failed (.ofField (.nullValue path) node path))
  | list {node : FieldNode} {element : TypeRef} {nullable : Bool} {elements : List Json}
    {path : Path} {t : Transcript ρ} {c : Completion (List Json)}
    (he : CompletesElements setting plan node element 0 elements path t c) :
    CompletesValue setting plan node (.list element nullable) (.arr elements) path t
      ((c.map .arr).orNull nullable)
  | noList {node : FieldNode} {element : TypeRef} {nullable : Bool} {value : Json} {path : Path}
    (hv : value ≠ .null) (hl : ∀ elements, value ≠ .arr elements) :
    CompletesValue setting plan node (.list element nullable) value path []
      ((Completion.failed (.ofField
        (.invalidValue (TypeRef.list element nullable).text value) node path)).orNull nullable)
  | object {node : FieldNode} {name : String} {nullable : Bool} {type : ObjectType ρ}
    {value : Json} {path : Path} {t : Transcript ρ} {c : Completion (List (String × Json))}
    (hv : value ≠ .null) (ht : setting.schema.find? name = some (.object type))
    (hs : CompletesFields setting plan node.children type value path t c) :
    CompletesValue setting plan node (.named name nullable) value path t
      ((c.map fun pairs => .obj (Table.ofPairs pairs)).orNull nullable)
  | leaf {node : FieldNode} {name : String} {nullable : Bool} {definition : TypeDefinition ρ}
    {value value' : Json} {path : Path}
    (hv : value ≠ .null) (ht : setting.schema.find? name = some definition)
    (hl : leaf? definition value = some value') :
    CompletesValue setting plan node (.named name nullable) value path [] (.ok value')
  | badLeaf {node : FieldNode} {name : String} {nullable : Bool} {definition : TypeDefinition ρ}
    {value : Json} {path : Path}
    (hv : value ≠ .null) (ht : setting.schema.find? name = some definition)
    (ho : ∀ type, definition ≠ .object type) (hl : leaf? definition value = none) :
    CompletesValue setting plan node (.named name nullable) value path []
      ((Completion.failed (.ofField (.invalidValue definition.name value) node path)).orNull
        nullable)
  | noType {node : FieldNode} {name : String} {nullable : Bool} {value : Json} {path : Path}
    (hv : value ≠ .null) (ht : setting.schema.find? name = none) :
    CompletesValue setting plan node (.named name nullable) value path []
      ((Completion.failed (.ofField (.invalidValue name value) node path)).orNull nullable)

/-- The elements of a list from an index on; the path is that of the list. -/
inductive CompletesElements (setting : Setting ρ) (plan : Plan) :
    FieldNode → TypeRef → Nat → List Json → Path → Transcript ρ → Completion (List Json) → Prop
  | nil {node : FieldNode} {type : TypeRef} {index : Nat} {path : Path} :
    CompletesElements setting plan node type index [] path [] (.ok [])
  | cons {node : FieldNode} {type : TypeRef} {index : Nat} {value : Json} {values : List Json}
    {path : Path} {t t' : Transcript ρ} {c : Completion Json} {c' : Completion (List Json)}
    (hv : CompletesValue setting plan node type value (path ++ [.index index]) t c)
    (hs : CompletesElements setting plan node type (index + 1) values path t' c') :
    CompletesElements setting plan node type index (value :: values) path (t ++ t')
      (.both (· :: ·) c c')

end

/-- What is below a field is completed as its children are. -/
def below (setting : Setting ρ) (plan : Plan) (node : FieldNode) :
    ObjectType ρ → Json → Path → Dialogue ρ (Completion Json) :=
  fun type value path => do
    let pairs ← completeFields setting plan node.children type value path
    return pairs.map fun pairs => .obj (Table.ofPairs pairs)

/-- The children of a node are completed by derivations. -/
def DerivesBelow (setting : Setting ρ) (plan : Plan) (node : FieldNode) : Prop :=
  ∀ type value path t c, (completeFields setting plan node.children type value path).Gives t c →
    CompletesFields setting plan node.children type value path t c

theorem completesElements_of_gives {node : FieldNode} {type : TypeRef}
    {element : Json → Path → Dialogue ρ (Completion Json)}
    (he : ∀ value path t c, (element value path).Gives t c →
      CompletesValue setting plan node type value path t c)
    {values : List Json} {index : Nat} {path : Path} {t : Transcript ρ} {c : Completion (List Json)}
    (h : (completeElements element path index values).Gives t c) :
    CompletesElements setting plan node type index values path t c := by
  induction values generalizing index t c with
  | nil =>
    obtain ⟨rfl, rfl⟩ := gives_done h
    exact .nil
  | cons value values ih =>
    obtain ⟨t₁, t', first, rfl, h₁, h⟩ := gives_bind h
    obtain ⟨t₂, t₃, more, rfl, h₂, h₃⟩ := gives_bind h
    obtain ⟨rfl, rfl⟩ := gives_done h₃
    rw [List.append_nil]
    exact .cons (he _ _ _ _ h₁) (ih h₂)

/-- A place at a named type: an object, a leaf, or nothing that is known. -/
theorem completesValue_of_gives_named {node : FieldNode} (hb : DerivesBelow setting plan node)
    {name : String} {nullable : Bool} {value : Json} {path : Path} {t : Transcript ρ}
    {c : Completion Json} (hv : value ≠ .null)
    (h : (complete setting.schema node (below setting plan node) (.named name nullable) value
      path).Gives t c) :
    CompletesValue setting plan node (.named name nullable) value path t c := by
  rw [complete] at h
  · split at h
    · next type ht =>
      obtain ⟨t₁, t₂, c', rfl, h₁, h₂⟩ := gives_bind h
      obtain ⟨t₃, t₄, c'', rfl, h₃, h₄⟩ := gives_bind h₁
      obtain ⟨rfl, rfl⟩ := gives_done h₂
      obtain ⟨rfl, rfl⟩ := gives_done h₄
      simp only [List.append_nil]
      exact .object hv ht (hb _ _ _ _ _ h₃)
    · next definition ho ht =>
      split at h
      · next value' hl =>
        obtain ⟨rfl, rfl⟩ := gives_done h
        exact .leaf hv ht hl
      · next hl =>
        obtain ⟨rfl, rfl⟩ := gives_done h
        exact .badLeaf hv ht (fun type he => ho type he) hl
    · next ht =>
      obtain ⟨rfl, rfl⟩ := gives_done h
      exact .noType hv ht
  · exact hv

theorem completesValue_of_gives {node : FieldNode} (hb : DerivesBelow setting plan node)
    {type : TypeRef} {value : Json} {path : Path} {t : Transcript ρ} {c : Completion Json}
    (h : (complete setting.schema node (below setting plan node) type value path).Gives t c) :
    CompletesValue setting plan node type value path t c := by
  induction type generalizing value path t c with
  | named name nullable =>
    by_cases hv : value = .null
    · subst hv
      obtain ⟨rfl, rfl⟩ := gives_done h
      exact .null
    · exact completesValue_of_gives_named hb hv h
  | list element nullable ih =>
    by_cases hv : value = .null
    · subst hv
      obtain ⟨rfl, rfl⟩ := gives_done h
      exact .null
    · by_cases hl : ∃ elements, value = .arr elements
      · obtain ⟨elements, rfl⟩ := hl
        obtain ⟨t₁, t₂, c', rfl, h₁, h₂⟩ := gives_bind h
        obtain ⟨rfl, rfl⟩ := gives_done h₂
        rw [List.append_nil]
        exact .list (completesElements_of_gives (fun _ _ _ _ => ih) h₁)
      · have hl : ∀ elements, value ≠ .arr elements := fun elements he => hl ⟨elements, he⟩
        rw [complete] at h
        · obtain ⟨rfl, rfl⟩ := gives_done h
          exact .noList hv hl
        · exact hv
        · exact hl

mutual

/-- Every transcript of a field's completion has a derivation. -/
theorem completesField_of_gives : ∀ {node : FieldNode} {container : ObjectType ρ} {parent : Json}
    {path : Path} {t : Transcript ρ} {c : Completion Json},
    (completeField setting plan node container parent path).Gives t c →
      CompletesField setting plan node container parent path t c
  | ⟨aliasName, name, arguments, children, position⟩, container, parent, path, t, c, h => by
    rw [completeField] at h
    split at h
    · next hn =>
      obtain ⟨rfl, rfl⟩ := gives_done h
      exact .typename hn
    · next hn =>
      split at h
      · next hd =>
        obtain ⟨rfl, rfl⟩ := gives_done h
        exact .undefined hn hd
      · next definition hd =>
        obtain ⟨t₁, t₂, r, rfl, hr, h⟩ := gives_bind h
        cases r with
        | error e =>
          obtain ⟨rfl, rfl⟩ := gives_done h
          rw [List.append_nil]
          exact .failed hn hd (resolves_of_gives hr)
        | ok value =>
          exact .resolved hn hd (resolves_of_gives hr)
            (completesValue_of_gives (fun _ _ _ _ _ => completesFields_of_gives) h)

theorem completesFields_of_gives : ∀ {nodes : List FieldNode} {container : ObjectType ρ}
    {parent : Json} {path : Path} {t : Transcript ρ} {c : Completion (List (String × Json))},
    (completeFields setting plan nodes container parent path).Gives t c →
      CompletesFields setting plan nodes container parent path t c
  | [], container, parent, path, t, c, h => by
    rw [completeFields] at h
    obtain ⟨rfl, rfl⟩ := gives_done h
    exact .nil
  | node :: rest, container, parent, path, t, c, h => by
    rw [completeFields] at h
    obtain ⟨t₁, t', first, rfl, h₁, h⟩ := gives_bind h
    obtain ⟨t₂, t₃, more, rfl, h₂, h₃⟩ := gives_bind h
    obtain ⟨rfl, rfl⟩ := gives_done h₃
    rw [List.append_nil]
    exact .cons (completesField_of_gives h₁) (completesFields_of_gives h₂)

end

/-- The ways in which a plan is executed. -/
inductive Executes (setting : Setting ρ) (root : Json) (plan : Plan) :
    Transcript ρ → Envelope → Prop
  | denied {denial : Denial} (hc : setting.capabilities.operationCheck = true) :
    Executes setting root plan [.operation plan (.deny denial)] (.rejected (.ofOperation denial))
  | noRoot {t : Transcript ρ} (ht : setting.schema.object? plan.root = none)
    (ha : ∀ exchange ∈ t, exchange = .operation plan .allow) :
    Executes setting root plan t (.rejected (.ofPlan (.rootMissing plan.root none)))
  | completed {type : ObjectType ρ} {t t' : Transcript ρ} {c : Completion (List (String × Json))}
    (ht : setting.schema.object? plan.root = some type)
    (ha : ∀ exchange ∈ t, exchange = .operation plan .allow)
    (hs : CompletesFields setting plan plan.fields type root [] t' c) :
    Executes setting root plan (t ++ t')
      ⟨(c.value.map fun pairs => .obj (Table.ofPairs pairs)).getD .null, c.errors⟩

theorem executes_of_gives {root : Json} {t : Transcript ρ} {envelope : Envelope}
    (h : (execute setting root plan).Gives t envelope) : Executes setting root plan t envelope := by
  obtain ⟨t₁, t₂, decision, rfl, h₁, h₂⟩ := gives_bind h
  have hc := gives_operationDecision h₁
  cases decision with
  | deny denial =>
    rcases hc with ⟨hc, rfl⟩ | ⟨-, -, he⟩
    · obtain ⟨rfl, rfl⟩ := gives_done h₂
      exact .denied hc
    · cases he
  | allow =>
    have ha : ∀ exchange ∈ t₁, exchange = .operation plan .allow := by
      rcases hc with ⟨-, rfl⟩ | ⟨-, rfl, -⟩ <;> simp
    simp only at h₂
    split at h₂
    · next ht =>
      obtain ⟨rfl, rfl⟩ := gives_done h₂
      rw [List.append_nil]
      exact .noRoot ht ha
    · next type ht =>
      obtain ⟨t₃, t₄, c, rfl, h₃, h₄⟩ := gives_bind h₂
      obtain ⟨rfl, rfl⟩ := gives_done h₄
      rw [List.append_nil]
      exact .completed ht ha (completesFields_of_gives h₃)

/-- Where the root type is there, an operation is denied or its fields are completed. -/
theorem cases_of_gives {root : Json} {t : Transcript ρ} {envelope : Envelope}
    {type : ObjectType ρ} (ht : setting.schema.object? plan.root = some type)
    (h : (execute setting root plan).Gives t envelope) :
    (∃ denial, t = [.operation plan (.deny denial)] ∧
        envelope = .rejected (.ofOperation denial)) ∨
      ∃ t₁ t₂ c, t = t₁ ++ t₂ ∧ (∀ exchange ∈ t₁, exchange = .operation plan .allow) ∧
        CompletesFields setting plan plan.fields type root [] t₂ c ∧
        envelope =
          ⟨(c.value.map fun pairs => .obj (Table.ofPairs pairs)).getD .null, c.errors⟩ := by
  cases executes_of_gives h with
  | denied _ => exact .inl ⟨_, rfl, rfl⟩
  | noRoot ht' _ =>
    rw [ht] at ht'
    cases ht'
  | completed ht' ha hs =>
    rw [ht, Option.some.injEq] at ht'
    subst ht'
    exact .inr ⟨_, _, _, rfl, ha, hs, rfl⟩

end GraphGate.Execution
