import GraphGate.Proofs.Faults
import GraphGate.Proofs.Schema

/-! Which types and roots make a schema: names are given once, the roots are objects, and whatever
is referred to is there and fits its place. For all others the first fault is told. -/
namespace GraphGate.Schema

variable {ρ : Type} {types definitions : List (TypeDefinition ρ)} {query : String}
  {mutation : Option String} {name owner : String} {type : TypeRef}

/-- A type whose values go in: one that is there and is no object. -/
def FitsInput (types : List (TypeDefinition ρ)) (type : TypeRef) : Prop :=
  ∃ inner ∈ types, inner.name = type.innermost ∧ ∀ object, inner ≠ .object object

/-- A type whose values come out: one that is there and is no input object. -/
def FitsOutput (types : List (TypeDefinition ρ)) (type : TypeRef) : Prop :=
  ∃ inner ∈ types, inner.name = type.innermost ∧ ∀ name fields, inner ≠ .input name fields

/-- The types of a schema: the built-in scalars, and then those that are defined. -/
def allTypes (definitions : List (TypeDefinition ρ)) : List (TypeDefinition ρ) :=
  builtinScalars.map .scalar ++ definitions

structure Acceptable (definitions : List (TypeDefinition ρ)) (query : String)
    (mutation : Option String) : Prop where
  distinct : (definitions.map (·.name)).Nodup
  notBuiltin : ∀ definition ∈ definitions, definition.name ∉ builtinScalars
  query : ∃ type, .object type ∈ definitions ∧ type.name = query
  mutation : ∀ name, mutation = some name → ∃ type, .object type ∈ definitions ∧ type.name = name
  fields : ∀ type, .object type ∈ definitions → ∀ field ∈ type.fields,
    FitsOutput (allTypes definitions) field.type
  arguments : ∀ type, .object type ∈ definitions → ∀ field ∈ type.fields,
    ∀ argument ∈ field.arguments, FitsInput (allTypes definitions) argument.type
  inputs : ∀ name fields, .input name fields ∈ definitions → ∀ field ∈ fields,
    FitsInput (allTypes definitions) field.type

/-- The first definition whose name is built in or was given before. -/
def Redefined (definitions : List (TypeDefinition ρ)) (e : SchemaError) : Prop :=
  ∃ before name after, definitions.map (·.name) = before ++ name :: after ∧ before.Nodup ∧
    (∀ n ∈ before, n ∉ builtinScalars) ∧ (name ∈ builtinScalars ∨ name ∈ before) ∧
    e = .duplicateType name

inductive RootFault (types : List (TypeDefinition ρ)) (name : String) : SchemaError → Prop
  | missing (h : ∀ definition ∈ types, definition.name ≠ name) :
    RootFault types name (.missingRoot name)
  | notObject {definition : TypeDefinition ρ} (hm : definition ∈ types)
    (hn : definition.name = name) (ho : ∀ object, definition ≠ .object object) :
    RootFault types name (.rootNotObject name)

/-- What is wrong with a type that is referred to: it is not there, or does not fit its place. -/
inductive ReferenceFault (types : List (TypeDefinition ρ)) (type : TypeRef) (coordinate : String) :
    Place → SchemaError → Prop
  | unknown {place : Place} (h : ∀ definition ∈ types, definition.name ≠ type.innermost) :
    ReferenceFault types type coordinate place (.unknownType type.innermost coordinate)
  | notInput {object : ObjectType ρ} (hm : .object object ∈ types)
    (hn : object.name = type.innermost) :
    ReferenceFault types type coordinate .input (.notInput type.innermost coordinate)
  | notOutput {fields : List ArgumentDefinition} (hm : .input type.innermost fields ∈ types) :
    ReferenceFault types type coordinate .output (.notOutput type.innermost coordinate)

/-- The type of a field comes before those of its arguments. -/
def FieldFault (types : List (TypeDefinition ρ)) (owner : String) (field : FieldDefinition ρ) :
    SchemaError → Prop :=
  InOrder (ReferenceFault types field.type (owner ++ "." ++ field.name) .output) <|
    FirstFault (fun argument => ReferenceFault types argument.type
      (owner ++ "." ++ field.name ++ "(" ++ argument.name ++ ":)") .input) field.arguments

def DefinitionFault (types : List (TypeDefinition ρ)) : TypeDefinition ρ → SchemaError → Prop
  | .object type => FirstFault (FieldFault types type.name) type.fields
  | .input name fields => FirstFault (fun field =>
      ReferenceFault types field.type (name ++ "." ++ field.name) .input) fields
  | .scalar _ | .enum .. => fun _ => False

/-- What is wrong first: a name that is given again, then the root of queries, then that of
mutations, then a reference, definition by definition. -/
def BuildFault (definitions : List (TypeDefinition ρ)) (query : String) (mutation : Option String) :
    SchemaError → Prop :=
  InOrder (Redefined definitions) <|
    InOrder (RootFault (allTypes definitions) query) <|
      InOrder (fun e => ∃ name, mutation = some name ∧ RootFault (allTypes definitions) name e) <|
        FirstFault (DefinitionFault (allTypes definitions)) definitions

section Distinct

variable (hd : (types.map (·.name)).Nodup)

include hd

theorem eq_of_name {definition other : TypeDefinition ρ} (hm : definition ∈ types)
    (hm' : other ∈ types) (hn : other.name = definition.name) : other = definition :=
  List.inj_on_of_nodup_map hd hm' hm hn

/-- Every type is found under its own name. -/
theorem find?_of_mem {definition : TypeDefinition ρ} (hm : definition ∈ types) :
    types.find? (·.name = definition.name) = some definition := by
  obtain ⟨found, hf⟩ : ∃ found, types.find? (·.name = definition.name) = some found :=
    Option.isSome_iff_exists.mp (List.find?_isSome.mpr ⟨definition, hm, by simp⟩)
  have hname : found.name = definition.name := by simpa using List.find?_some hf
  rw [hf, eq_of_name hd hm (List.mem_of_find?_eq_some hf) hname]

omit hd in
/-- Either there is a type of a name, or none is found under it. -/
theorem find?_cases (types : List (TypeDefinition ρ)) (name : String) :
    (∃ definition ∈ types, definition.name = name) ∨
      (∀ definition ∈ types, definition.name ≠ name) ∧ types.find? (·.name = name) = none := by
  cases hf : types.find? (·.name = name) with
  | some definition =>
    exact .inl ⟨definition, List.mem_of_find?_eq_some hf, by simpa using List.find?_some hf⟩
  | none => exact .inr ⟨by simpa using hf, rfl⟩

theorem not_rootFault_iff :
    (∀ e, ¬ RootFault types name e) ↔ ∃ type, .object type ∈ types ∧ type.name = name := by
  constructor
  · intro h
    rcases find?_cases types name with ⟨definition, hm, hn⟩ | ⟨hnone, -⟩
    · cases definition with
      | object type => exact ⟨type, hm, hn⟩
      | _ => exact absurd (.notObject hm hn (by simp)) (h _)
    · exact absurd (.missing hnone) (h _)
  · rintro ⟨type, hm, rfl⟩ e (h | ⟨hm', hn, ho⟩)
    · exact h _ hm rfl
    · exact ho type (eq_of_name hd hm hm' hn)

theorem reports_checkRoot (query : String) (mutation : Option String) :
    Reports (RootFault types name) (checkRoot ⟨types, query, mutation⟩ name) := by
  rw [checkRoot, find?]
  rcases find?_cases types name with ⟨definition, hm, rfl⟩ | ⟨hnone, hf⟩
  · rw [find?_of_mem hd hm]
    cases definition with
    | object type => exact reports_ok ((not_rootFault_iff hd).mpr ⟨type, hm, rfl⟩)
    | _ =>
      refine reports_error fun e => ⟨?_, ?_⟩
      · rintro (h | _)
        · exact absurd rfl (h _ hm)
        · rfl
      · rintro rfl
        exact .notObject hm rfl (by simp)
  · rw [hf]
    refine reports_error fun e => ⟨?_, ?_⟩
    · rintro (_ | ⟨hm, hn, -⟩)
      · rfl
      · exact absurd hn (hnone _ hm)
    · rintro rfl
      exact .missing hnone

theorem not_inputFault_iff {coordinate : String} :
    (∀ e, ¬ ReferenceFault types type coordinate .input e) ↔ FitsInput types type := by
  constructor
  · intro h
    rcases find?_cases types type.innermost with ⟨inner, hm, hn⟩ | ⟨hnone, -⟩
    · refine ⟨inner, hm, hn, ?_⟩
      rintro object rfl
      exact h _ (.notInput hm hn)
    · exact absurd (.unknown hnone) (h _)
  · rintro ⟨inner, hm, hn, ho⟩ e (h | @⟨object, hm', hn'⟩ | _)
    · exact h _ hm hn
    · exact ho object (eq_of_name hd hm' hm (hn.trans hn'.symm))

theorem not_outputFault_iff {coordinate : String} :
    (∀ e, ¬ ReferenceFault types type coordinate .output e) ↔ FitsOutput types type := by
  constructor
  · intro h
    rcases find?_cases types type.innermost with ⟨inner, hm, hn⟩ | ⟨hnone, -⟩
    · refine ⟨inner, hm, hn, ?_⟩
      rintro name fields rfl
      obtain rfl : name = type.innermost := hn
      exact h _ (.notOutput hm)
    · exact absurd (.unknown hnone) (h _)
  · rintro ⟨inner, hm, hn, ho⟩ e (h | _ | @⟨fields, hm'⟩)
    · exact h _ hm hn
    · exact ho _ fields (eq_of_name hd hm' hm hn)

theorem reports_inputReference {coordinate : String} {inner : TypeDefinition ρ}
    (hm : inner ∈ types) (hn : inner.name = type.innermost) :
    Reports (ReferenceFault types type coordinate .input)
      (checkReference ⟨types, query, mutation⟩ ⟨type.innermost, .input, coordinate⟩) := by
  have hf : types.find? (·.name = type.innermost) = some inner := hn ▸ find?_of_mem hd hm
  rw [checkReference, find?, hf]
  cases inner with
  | object object =>
    refine reports_error fun e => ⟨?_, ?_⟩
    · rintro (h | _ | _)
      · exact absurd hn (h _ hm)
      · rfl
    · rintro rfl
      exact .notInput hm hn
  | _ => exact reports_ok ((not_inputFault_iff hd).mpr ⟨_, hm, hn, by simp⟩)

theorem reports_outputReference {coordinate : String} {inner : TypeDefinition ρ}
    (hm : inner ∈ types) (hn : inner.name = type.innermost) :
    Reports (ReferenceFault types type coordinate .output)
      (checkReference ⟨types, query, mutation⟩ ⟨type.innermost, .output, coordinate⟩) := by
  have hf : types.find? (·.name = type.innermost) = some inner := hn ▸ find?_of_mem hd hm
  rw [checkReference, find?, hf]
  cases inner with
  | input name fields =>
    obtain rfl : name = type.innermost := hn
    refine reports_error fun e => ⟨?_, ?_⟩
    · rintro (h | _ | _)
      · exact absurd rfl (h _ hm)
      · rfl
    · rintro rfl
      exact .notOutput hm
  | _ => exact reports_ok ((not_outputFault_iff hd).mpr ⟨_, hm, hn, by simp⟩)

theorem reports_checkReference (query : String) (mutation : Option String) (place : Place)
    (coordinate : String) :
    Reports (ReferenceFault types type coordinate place)
      (checkReference ⟨types, query, mutation⟩ ⟨type.innermost, place, coordinate⟩) := by
  rcases find?_cases types type.innermost with ⟨inner, hm, hn⟩ | ⟨hnone, hf⟩
  · cases place with
    | input => exact reports_inputReference hd hm hn
    | output => exact reports_outputReference hd hm hn
  · rw [checkReference, find?, hf]
    refine reports_error fun e => ⟨?_, ?_⟩
    · rintro (_ | ⟨hm, hn⟩ | hm)
      · rfl
      · exact absurd hn (hnone _ hm)
      · exact absurd rfl (hnone _ hm)
    · rintro rfl
      exact .unknown hnone

theorem reports_fieldReferences (query : String) (mutation : Option String)
    (field : FieldDefinition ρ) :
    Reports (FieldFault types owner field)
      (forM (fieldReferences owner field) (checkReference ⟨types, query, mutation⟩)) := by
  rw [fieldReferences, List.forM_cons, List.forM_map]
  refine reports_bind (reports_checkReference hd query mutation _ _) fun _ _ => ?_
  exact reports_forM fun argument _ => reports_checkReference hd query mutation _ _

theorem reports_references (query : String) (mutation : Option String)
    (definition : TypeDefinition ρ) :
    Reports (DefinitionFault types definition)
      (forM (references definition) (checkReference ⟨types, query, mutation⟩)) := by
  cases definition with
  | object type =>
    rw [references, forM_flatMap]
    exact reports_forM fun field _ => reports_fieldReferences hd query mutation field
  | input name fields =>
    rw [references, List.forM_map]
    exact reports_forM fun field _ => reports_checkReference hd query mutation _ _
  | _ => exact reports_ok fun _ => id

theorem not_definitionFault_iff :
    (∀ definition ∈ definitions, ∀ e, ¬ DefinitionFault types definition e) ↔
      (∀ type, .object type ∈ definitions → ∀ field ∈ type.fields, FitsOutput types field.type ∧
        ∀ argument ∈ field.arguments, FitsInput types argument.type) ∧
      ∀ name fields, .input name fields ∈ definitions → ∀ field ∈ fields,
        FitsInput types field.type := by
  have hfield : ∀ (owner : String) (field : FieldDefinition ρ),
      (∀ e, ¬ FieldFault types owner field e) ↔ FitsOutput types field.type ∧
        ∀ argument ∈ field.arguments, FitsInput types argument.type := by
    intro owner field
    simp only [FieldFault, not_inOrder_iff, not_firstFault_iff, not_inputFault_iff hd,
      not_outputFault_iff hd]
  constructor
  · intro h
    constructor
    · intro type hm field hf
      exact (hfield type.name field).mp (not_firstFault_iff.mp (h _ hm) field hf)
    · intro name fields hm field hf
      exact (not_inputFault_iff hd).mp (not_firstFault_iff.mp (h _ hm) field hf)
  · rintro ⟨hobjects, hinputs⟩ definition hm
    cases definition with
    | object type =>
      exact not_firstFault_iff.mpr fun field hf => (hfield _ _).mpr (hobjects type hm field hf)
    | input name fields =>
      exact not_firstFault_iff.mpr fun field hf =>
        (not_inputFault_iff hd).mpr (hinputs name fields hm field hf)
    | _ => exact fun _ => id

end Distinct

section Names

variable {used names : List String}

theorem duplicate?_eq_none_iff :
    duplicate? used names = none ↔ names.Nodup ∧ ∀ n ∈ names, n ∉ used := by
  induction names generalizing used with
  | nil => simp [duplicate?]
  | cons first rest ih =>
    by_cases hf : first ∈ used
    · simp [duplicate?, hf]
    · rw [duplicate?, if_neg (by simpa using hf), ih, List.nodup_cons, List.forall_mem_cons]
      constructor
      · rintro ⟨hn, hu⟩
        refine ⟨⟨fun hm => hu first hm List.mem_cons_self, hn⟩, hf, ?_⟩
        exact fun n hm hused => hu n hm (.tail _ hused)
      · rintro ⟨⟨hfirst, hn⟩, -, hu⟩
        refine ⟨hn, fun n hm hused => ?_⟩
        rcases List.mem_cons.mp hused with rfl | hused
        · exact hfirst hm
        · exact hu n hm hused

/-- The name that is told is the first one that was used or has come before. -/
theorem duplicate?_eq_some_iff :
    duplicate? used names = some name ↔ ∃ before after, names = before ++ name :: after ∧
      before.Nodup ∧ (∀ n ∈ before, n ∉ used) ∧ (name ∈ used ∨ name ∈ before) := by
  induction names generalizing used with
  | nil => simp [duplicate?]
  | cons first rest ih =>
    rw [duplicate?]
    by_cases hf : first ∈ used
    · rw [if_pos (by simpa using hf)]
      constructor
      · rintro ⟨⟩
        exact ⟨[], rest, rfl, List.nodup_nil, List.forall_mem_nil _, .inl hf⟩
      · rintro ⟨before, after, h, -, hu, -⟩
        cases before with
        | nil => exact congrArg some (List.cons.inj h).1
        | cons n before =>
          obtain ⟨rfl, -⟩ := List.cons.inj h
          exact absurd hf (hu _ List.mem_cons_self)
    · rw [if_neg (by simpa using hf), ih]
      constructor
      · rintro ⟨before, after, rfl, hn, hu, hname⟩
        have hfirst : first ∉ before := fun hm => hu first hm List.mem_cons_self
        refine ⟨first :: before, after, rfl, List.nodup_cons.mpr ⟨hfirst, hn⟩, ?_, ?_⟩
        · exact List.forall_mem_cons.mpr ⟨hf, fun n hm hused => hu n hm (.tail _ hused)⟩
        · simp only [List.mem_cons] at hname ⊢
          tauto
      · rintro ⟨before, after, h, hn, hu, hname⟩
        cases before with
        | nil =>
          obtain ⟨rfl, -⟩ := List.cons.inj h
          simp [hf] at hname
        | cons n before =>
          obtain ⟨rfl, rfl⟩ := List.cons.inj h
          obtain ⟨hfirst, hn⟩ := List.nodup_cons.mp hn
          refine ⟨before, after, rfl, hn, fun n hm hused => ?_, ?_⟩
          · rcases List.mem_cons.mp hused with rfl | hused
            · exact hfirst hm
            · exact hu n (.tail _ hm) hused
          · simp only [List.mem_cons] at hname ⊢
            tauto

/-- No name may be built in or given twice. -/
def checkNames (definitions : List (TypeDefinition ρ)) : Except SchemaError Unit :=
  match duplicate? builtinScalars (definitions.map (·.name)) with
  | some name => .error (.duplicateType name)
  | none => .ok ()

theorem reports_checkNames : Reports (Redefined definitions) (checkNames definitions) := by
  unfold checkNames
  cases hd : duplicate? builtinScalars (definitions.map (·.name)) with
  | some name =>
    obtain ⟨before, after, h⟩ := duplicate?_eq_some_iff.mp hd
    refine reports_error fun e => ⟨?_, ?_⟩
    · rintro ⟨before', name', after', heq, hn, hu, hname, rfl⟩
      have hd' := duplicate?_eq_some_iff.mpr ⟨before', after', heq, hn, hu, hname⟩
      rw [Option.some.inj (hd.symm.trans hd')]
    · rintro rfl
      exact ⟨before, name, after, h.1, h.2.1, h.2.2.1, h.2.2.2, rfl⟩
  | none =>
    refine reports_ok fun e => ?_
    rintro ⟨before, name, after, heq, hn, hu, hname, -⟩
    have hd' := duplicate?_eq_some_iff.mpr ⟨before, after, heq, hn, hu, hname⟩
    cases hd.symm.trans hd'

theorem not_redefined_iff :
    (∀ e, ¬ Redefined definitions e) ↔ (definitions.map (·.name)).Nodup ∧
      ∀ definition ∈ definitions, definition.name ∉ builtinScalars := by
  have hnames : (∀ n ∈ definitions.map (·.name), n ∉ builtinScalars) ↔
      ∀ definition ∈ definitions, definition.name ∉ builtinScalars := List.forall_mem_map
  rw [← exists_ok_iff_of_reports reports_checkNames, ← hnames, ← duplicate?_eq_none_iff, checkNames]
  cases duplicate? builtinScalars (definitions.map (·.name)) with
  | some name => simp
  | none => simp

theorem nodup_allTypes (hn : (definitions.map (·.name)).Nodup)
    (hb : ∀ definition ∈ definitions, definition.name ∉ builtinScalars) :
    ((allTypes definitions).map (·.name)).Nodup := by
  have hscalars : (builtinScalars.map (TypeDefinition.scalar : String → TypeDefinition ρ)).map
      (·.name) = builtinScalars := rfl
  rw [allTypes, List.map_append, hscalars]
  refine List.nodup_append.mpr ⟨by decide, hn, ?_⟩
  rintro _ hbuiltin name hm rfl
  obtain ⟨definition, hdefinition, rfl⟩ := List.mem_map.mp hm
  exact hb definition hdefinition hbuiltin

theorem object_mem_allTypes {object : ObjectType ρ} :
    .object object ∈ allTypes definitions ↔ .object object ∈ definitions := by
  simp [allTypes]

end Names

theorem build_eq (definitions : List (TypeDefinition ρ)) (query : String)
    (mutation : Option String) :
    build definitions query mutation =
      checkNames definitions >>= fun _ =>
        checkRoot ⟨allTypes definitions, query, mutation⟩ query >>= fun _ =>
          mutation.forM (checkRoot ⟨allTypes definitions, query, mutation⟩) >>= fun _ =>
            forM definitions (fun definition => forM (references definition)
              (checkReference ⟨allTypes definitions, query, mutation⟩)) >>= fun _ =>
                .ok ⟨allTypes definitions, query, mutation⟩ := by
  rw [← forM_flatMap, build, checkNames]
  cases duplicate? builtinScalars (definitions.map (·.name)) with
  | some name => rfl
  | none => rfl

theorem reports_build : Reports (BuildFault definitions query mutation)
    (build definitions query mutation) := by
  rw [build_eq]
  -- That each name stands for one type is what the first check gives to all the others.
  refine reports_bind reports_checkNames fun _ hnames => ?_
  obtain ⟨hn, hb⟩ := not_redefined_iff.mp ((exists_ok_iff_of_reports reports_checkNames).mp
    ⟨_, hnames⟩)
  have hd := nodup_allTypes hn hb
  refine reports_bind (reports_checkRoot hd query mutation) fun _ _ => ?_
  refine reports_bind ?_ fun _ _ => reports_then ?_
  · cases mutation with
    | none => exact reports_ok (by simp)
    | some name =>
      have hroot : Reports (RootFault (allTypes definitions) name) _ :=
        reports_checkRoot hd query (some name)
      exact reports_congr (fun e => by simp) hroot
  · exact reports_forM fun definition _ => reports_references hd query mutation definition

theorem not_buildFault_iff :
    (∀ e, ¬ BuildFault definitions query mutation e) ↔ Acceptable definitions query mutation := by
  simp only [BuildFault, not_inOrder_iff, not_firstFault_iff]
  constructor
  · rintro ⟨hnames, hquery, hmutation, hreferences⟩
    obtain ⟨hn, hb⟩ := not_redefined_iff.mp hnames
    have hd := nodup_allTypes hn hb
    obtain ⟨hobjects, hinputs⟩ := (not_definitionFault_iff hd).mp hreferences
    have hroot : ∀ name, (∀ e, ¬ RootFault (allTypes definitions) name e) →
        ∃ type, .object type ∈ definitions ∧ type.name = name := by
      intro name h
      simpa only [object_mem_allTypes] using (not_rootFault_iff hd).mp h
    exact ⟨hn, hb, hroot query hquery,
      fun name hm => hroot name fun e he => hmutation e ⟨name, hm, he⟩,
      fun type hm field hf => (hobjects type hm field hf).1,
      fun type hm field hf => (hobjects type hm field hf).2, hinputs⟩
  · intro h
    have hd := nodup_allTypes h.distinct h.notBuiltin
    have hroot : ∀ name, (∃ type, .object type ∈ definitions ∧ type.name = name) →
        ∀ e, ¬ RootFault (allTypes definitions) name e := by
      intro name hname
      exact (not_rootFault_iff hd).mpr (by simpa only [object_mem_allTypes] using hname)
    refine ⟨not_redefined_iff.mpr ⟨h.distinct, h.notBuiltin⟩, hroot query h.query, ?_, ?_⟩
    · rintro e ⟨name, hm, he⟩
      exact hroot name (h.mutation name hm) e he
    · exact (not_definitionFault_iff hd).mpr
        ⟨fun type hm field hf => ⟨h.fields type hm field hf, h.arguments type hm field hf⟩,
          h.inputs⟩

/-- A schema is built if and only if its types and roots are acceptable. It then holds the built-in
scalars and after them the types as they were given, each under its own name; in all other cases the
first fault is reported. -/
theorem builds_exactly_acceptable (definitions : List (TypeDefinition ρ)) (query : String)
    (mutation : Option String) :
    (∀ schema, build definitions query mutation = .ok schema ↔
      Acceptable definitions query mutation ∧
        schema = ⟨builtinScalars.map .scalar ++ definitions, query, mutation⟩) ∧
    (∀ schema, build definitions query mutation = .ok schema → ∀ definition ∈ schema.types,
      schema.find? definition.name = some definition) ∧
    ∀ e, build definitions query mutation = .error e ↔ BuildFault definitions query mutation e := by
  have hbuilds : (∃ schema, build definitions query mutation = .ok schema) ↔
      Acceptable definitions query mutation :=
    (exists_ok_iff_of_reports reports_build).trans not_buildFault_iff
  refine ⟨fun schema => ⟨fun h => ?_, ?_⟩, fun schema h => ?_, reports_build⟩
  · exact ⟨hbuilds.mp ⟨schema, h⟩, (checked_of_build h).1⟩
  · rintro ⟨ha, rfl⟩
    obtain ⟨schema, h⟩ := hbuilds.mpr ha
    rw [h, (checked_of_build h).1]
  · have ha := hbuilds.mp ⟨schema, h⟩
    obtain ⟨rfl, -⟩ := checked_of_build h
    exact fun definition hm => find?_of_mem (nodup_allTypes ha.distinct ha.notBuiltin) hm

end GraphGate.Schema
