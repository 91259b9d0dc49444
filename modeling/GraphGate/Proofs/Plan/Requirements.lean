import GraphGate.Proofs.Faults
import GraphGate.Proofs.Plan.Arguments

/-! Which arguments a field takes: those that it declares, each with a value of its type, and none
left out that it asks for. Of all others the first fault is told, by the order of the declarations,
and names that are not declared come last. -/
namespace GraphGate

namespace Query.Value

variable {ν ε : Type} {attempt : ν → Except ε Constant} {constant : ν → Constant}

mutual

/-- The variables that a value uses. -/
def uses : Value ν → List ν
  | .var name => [name]
  | .null | .number _ | .string _ | .bool _ | .enum _ => []
  | .list elements => elementUses elements
  | .object fields => fieldUses fields

def elementUses : List (Value ν) → List ν
  | [] => []
  | v :: rest => uses v ++ elementUses rest

def fieldUses : List (String × Value ν) → List ν
  | [] => []
  | (_, v) :: rest => uses v ++ fieldUses rest

end

mutual

/-- Substitution succeeds where every variable in the value stands for something. -/
theorem substitute_of_uses : ∀ {v : Value ν},
    (∀ name ∈ v.uses, attempt name = .ok (constant name)) →
      v.substitute attempt = .ok (v.valued constant)
  | .var name, h => h name (by simp [uses])
  | .null, _ | .number _, _ | .string _, _ | .bool _, _ | .enum _, _ => rfl
  | .list elements, h => by
    rw [substitute, substituteElements_of_uses h]
    rfl
  | .object fields, h => by
    rw [substitute, substituteFields_of_uses h]
    rfl

theorem substituteElements_of_uses : ∀ {elements : List (Value ν)},
    (∀ name ∈ elementUses elements, attempt name = .ok (constant name)) →
      substituteElements attempt elements = .ok (valuedElements constant elements)
  | [], _ => rfl
  | v :: rest, h => by
    obtain ⟨hv, hrest⟩ := List.forall_mem_append.mp h
    rw [substituteElements, substitute_of_uses hv, substituteElements_of_uses hrest]
    rfl

theorem substituteFields_of_uses : ∀ {fields : List (String × Value ν)},
    (∀ name ∈ fieldUses fields, attempt name = .ok (constant name)) →
      substituteFields attempt fields = .ok (valuedFields constant fields)
  | [], _ => rfl
  | (k, v) :: rest, h => by
    obtain ⟨hv, hrest⟩ := List.forall_mem_append.mp h
    rw [substituteFields, substitute_of_uses hv, substituteFields_of_uses hrest]
    rfl

end

end Query.Value

namespace Plan

open Query

variable {ρ : Type} {schema : Schema ρ} {bindings : Bindings} {position : Position}
  {field : String} {declared : List ArgumentDefinition} {written : List Argument}
  {d : ArgumentDefinition}

/-- The arguments that count: a type's own name may come along with the others. -/
def counted (written : List Argument) : List Argument := written.filter (·.name != typename)

/-- Every variable that is used is declared, with a value or without. -/
def VariablesDeclared (bindings : Bindings) (written : List Argument) : Prop :=
  ∀ argument ∈ written, ∀ name ∈ argument.value.uses, ∃ value, bindings.get? name = some value

/-- Arguments that a field takes. -/
structure Takes (schema : Schema ρ) (bindings : Bindings) (declared : List ArgumentDefinition)
    (written : List Argument) : Prop where
  known : ∀ argument ∈ written, argument.name ∈ declared.map (·.name)
  typed : ∀ d ∈ declared, ∀ constant, supplied? bindings written d.name = some constant →
    ∃ w, Coercion.coerce schema constant d.type = .ok w
  present : ∀ d ∈ declared, d.type.nullable = false → d.default = none →
    ∃ constant, supplied? bindings written d.name = some constant

/-- The values that a field gets: one for each declared argument that is supplied, in the order of
the declarations. -/
def Receives (schema : Schema ρ) (bindings : Bindings) (declared : List ArgumentDefinition)
    (written : List Argument) (values : Table Json) : Prop :=
  List.Forall₂ (fun d pair => pair.1 = d.name ∧ ∃ constant,
      supplied? bindings written d.name = some constant ∧
        Coercion.coerce schema constant d.type = .ok pair.2)
    (declared.filter fun d => (supplied? bindings written d.name).isSome) values

/-- What is wrong with one argument: its value is none of its type, or there is none. -/
inductive ArgumentFault (schema : Schema ρ) (bindings : Bindings) (written : List Argument)
    (field : String) (position : Position) (d : ArgumentDefinition) : PlanError → Prop
  | mistyped {constant : Constant} {mismatch : Mismatch}
    (hs : supplied? bindings written d.name = some constant)
    (hc : Coercion.coerce schema constant d.type = .error mismatch) :
    ArgumentFault schema bindings written field position d
      (.argumentType d.name field mismatch position)
  | missing (hs : supplied? bindings written d.name = none) (hn : d.type.nullable = false)
    (hd : d.default = none) :
    ArgumentFault schema bindings written field position d (.argumentMissing d.name field position)

/-- The names that are not declared, in the order in which they were first supplied. -/
def strays (declared : List ArgumentDefinition) (written : List Argument) : List String :=
  (written.map (·.name)).eraseDups.filter fun name => !(declared.map (·.name)).contains name

/-- What is wrong first: a declared argument, or else the names that are not declared. -/
def ArgumentsFault (schema : Schema ρ) (bindings : Bindings) (declared : List ArgumentDefinition)
    (written : List Argument) (field : String) (position : Position) : PlanError → Prop :=
  InOrder (FirstFault (ArgumentFault schema bindings written field position) declared) fun e =>
    strays declared written ≠ [] ∧ e = .strayArguments (strays declared written) field position

theorem get?_suppliedTable_counted {name : String} :
    (suppliedTable written).get? name = (counted written).reverse.find? (·.name = name) := by
  rw [suppliedTable, Table.get?_ofPairs, ← List.map_reverse, List.find?_map, Option.map_map]
  exact Option.map_id'

theorem names_suppliedTable :
    (suppliedTable written).names = ((counted written).map (·.name)).eraseDups := by
  rw [suppliedTable, Table.names_ofPairs, List.map_map]
  rfl

theorem resolveArgument_of_uses {value : Literal}
    (h : ∀ name ∈ value.uses, ∃ bound, bindings.get? name = some bound) :
    resolveArgument bindings position value = .ok (given? bindings value) := by
  have hconstant : ∀ name ∈ value.uses, variableConstant bindings position name =
      .ok ((bindings.get? name).join.getD .null) := by
    intro name hm
    obtain ⟨bound, hb⟩ := h name hm
    rw [variableConstant, hb]
    rfl
  have hsubstitute := Value.substitute_of_uses hconstant
  cases value with
  | var name =>
    obtain ⟨bound, hb⟩ := h name (by simp [Value.uses])
    rw [resolveArgument, given?, hb]
    rfl
  | _ =>
    rw [resolveArgument, hsubstitute]
    · rfl
    · simp

/-- Where all variables are declared, what is written for an argument is what is supplied. -/
theorem writtenValue_of_uses (hv : VariablesDeclared bindings (counted written))
    (name : String) : writtenValue bindings (suppliedTable written) name =
      .ok (supplied? bindings (counted written) name) := by
  rw [writtenValue, supplied?, get?_suppliedTable_counted]
  cases hf : (counted written).reverse.find? (·.name = name) with
  | none => rfl
  | some argument =>
    have hm : argument ∈ counted written := List.mem_reverse.mp (List.mem_of_find?_eq_some hf)
    exact resolveArgument_of_uses (hv argument hm)

theorem argumentValue_of_uses (hv : VariablesDeclared bindings (counted written)) :
    argumentValue schema bindings position field (suppliedTable written) d =
      typedValue schema position field d (supplied? bindings (counted written) d.name) := by
  rw [argumentValue_eq, writtenValue_of_uses hv]
  rfl

theorem reports_typedValue : Reports (ArgumentFault schema bindings written field position d)
    (typedValue schema position field d (supplied? bindings written d.name)) := by
  cases hs : supplied? bindings written d.name with
  | some constant =>
    rw [typedValue]
    cases hc : Coercion.coerce schema constant d.type with
    | ok w =>
      refine reports_ok ?_
      rintro e (⟨hs', hc'⟩ | ⟨hs', -, -⟩)
      · rw [hs] at hs'
        cases hs'
        rw [hc] at hc'
        cases hc'
      · rw [hs] at hs'
        cases hs'
    | error mismatch =>
      refine reports_error fun e => ⟨?_, ?_⟩
      · rintro (⟨hs', hc'⟩ | ⟨hs', -, -⟩)
        · rw [hs] at hs'
          cases hs'
          rw [hc] at hc'
          cases hc'
          rfl
        · rw [hs] at hs'
          cases hs'
      · rintro rfl
        exact .mistyped hs hc
  | none =>
    rw [typedValue]
    by_cases hr : d.type.nullable = false ∧ d.default = none
    · obtain ⟨hn, hd⟩ := hr
      rw [hn, hd]
      refine reports_error fun e => ⟨?_, ?_⟩
      · rintro (⟨hs', -⟩ | _)
        · rw [hs] at hs'
          cases hs'
        · rfl
      · rintro rfl
        exact .missing hs hn hd
    · have hleft : (!d.type.nullable && d.default.isNone) = false := by
        simpa [← Option.ne_none_iff_isSome] using hr
      rw [hleft]
      refine reports_ok ?_
      rintro e (⟨hs', -⟩ | ⟨-, hn, hd⟩)
      · rw [hs] at hs'
        cases hs'
      · exact hr ⟨hn, hd⟩

theorem reports_argumentValues (hv : VariablesDeclared bindings (counted written)) :
    Reports (FirstFault (ArgumentFault schema bindings (counted written) field position) declared)
      (argumentValues schema bindings position field (suppliedTable written) declared) := by
  induction declared with
  | nil => exact reports_ok fun _ => not_firstFault_nil
  | cons d rest ih =>
    rw [argumentValues, argumentValue_of_uses hv]
    exact reports_congr (fun _ => firstFault_cons_iff.symm)
      (reports_bind reports_typedValue fun _ _ => reports_then ih)

/-- An argument has a value in the end exactly if one is supplied, namely that one at its type. -/
theorem cases_of_typedValue {supplied : Option Constant} {result : Option Json}
    (h : typedValue schema position field d supplied = .ok result) :
    (supplied = none ∧ result = none) ∨ ∃ constant w, supplied = some constant ∧ result = some w ∧
      Coercion.coerce schema constant d.type = .ok w := by
  cases supplied with
  | some constant =>
    rw [typedValue] at h
    split at h
    · next w hc =>
      cases h
      exact .inr ⟨constant, w, rfl, rfl, hc⟩
    · cases h
  | none =>
    rw [typedValue] at h
    split at h
    · cases h
    · cases h
      exact .inl ⟨rfl, rfl⟩

theorem receives_of_argumentValues (hv : VariablesDeclared bindings (counted written))
    {values : Table Json}
    (h : argumentValues schema bindings position field (suppliedTable written) declared =
      .ok values) : Receives schema bindings declared (counted written) values := by
  induction declared generalizing values with
  | nil =>
    cases h
    exact .nil
  | cons d rest ih =>
    rw [argumentValues, argumentValue_of_uses hv] at h
    obtain ⟨result, hr, h⟩ := exists_of_bind_ok h
    obtain ⟨more, hm, h⟩ := exists_of_bind_ok h
    cases h
    have hmore := ih hm
    rcases cases_of_typedValue hr with ⟨hs, rfl⟩ | ⟨constant, w, hs, rfl, hc⟩
    · rwa [Receives, List.filter_cons_of_neg (by simp [hs])]
    · rw [Receives, List.filter_cons_of_pos (by simp [hs])]
      exact .cons ⟨rfl, constant, hs, hc⟩ hmore

theorem not_argumentFault_iff :
    (∀ e, ¬ ArgumentFault schema bindings written field position d e) ↔
      (∀ constant, supplied? bindings written d.name = some constant →
        ∃ w, Coercion.coerce schema constant d.type = .ok w) ∧
      (d.type.nullable = false → d.default = none →
        ∃ constant, supplied? bindings written d.name = some constant) := by
  constructor
  · intro h
    refine ⟨fun constant hs => ?_, fun hn hd => ?_⟩
    · cases hc : Coercion.coerce schema constant d.type with
      | ok w => exact ⟨w, rfl⟩
      | error mismatch => exact absurd (.mistyped hs hc) (h _)
    · cases hs : supplied? bindings written d.name with
      | some constant => exact ⟨constant, rfl⟩
      | none => exact absurd (.missing hs hn hd) (h _)
  · rintro ⟨htyped, hpresent⟩ e (⟨hs, hc⟩ | ⟨hs, hn, hd⟩)
    · obtain ⟨w, hw⟩ := htyped _ hs
      rw [hc] at hw
      cases hw
    · obtain ⟨constant, hs'⟩ := hpresent hn hd
      rw [hs] at hs'
      cases hs'

theorem strays_eq_nil_iff :
    strays declared written = [] ↔ ∀ argument ∈ written, argument.name ∈ declared.map (·.name) := by
  simp [strays, List.filter_eq_nil_iff]

theorem not_argumentsFault_iff :
    (∀ e, ¬ ArgumentsFault schema bindings declared written field position e) ↔
      Takes schema bindings declared written := by
  have hstrays : (∀ e, ¬ (strays declared written ≠ [] ∧
      e = PlanError.strayArguments (strays declared written) field position)) ↔
      strays declared written = [] := by simp
  rw [ArgumentsFault, not_inOrder_iff, not_firstFault_iff, hstrays, strays_eq_nil_iff]
  simp only [not_argumentFault_iff]
  constructor
  · rintro ⟨hfaults, hdeclared⟩
    exact ⟨hdeclared, fun d hd => (hfaults d hd).1, fun d hd => (hfaults d hd).2⟩
  · intro h
    exact ⟨fun d hd => ⟨h.typed d hd, h.present d hd⟩, h.known⟩

theorem reports_arguments {head : FieldHead} {definition : FieldDefinition ρ}
    (hv : VariablesDeclared bindings (counted head.arguments)) :
    Reports (ArgumentsFault schema bindings definition.arguments (counted head.arguments)
      definition.name head.position) (arguments schema bindings head definition) := by
  have hstrays : (suppliedTable head.arguments).names.filter
      (fun name => !(definition.arguments.map (·.name)).contains name) =
      strays definition.arguments (counted head.arguments) := by
    rw [names_suppliedTable, strays]
  rw [arguments]
  refine reports_bind (reports_argumentValues hv) fun values _ => ?_
  rw [hstrays]
  cases strays definition.arguments (counted head.arguments) with
  | nil => exact reports_ok (by simp)
  | cons stray rest => exact reports_error (by simp)

/-- A field takes exactly the arguments that it declares. Where all variables are declared, its
arguments are taken if and only if each of them is declared, has a value of its type where it has
one, and has one where it must. Each that has a value is then among the values, and no other; in
all other cases the first fault is reported. -/
theorem takes_exactly_declared (schema : Schema ρ) (bindings : Bindings) (head : FieldHead)
    (definition : FieldDefinition ρ)
    (hv : VariablesDeclared bindings (counted head.arguments)) :
    ((∃ values, arguments schema bindings head definition = .ok values) ↔
      Takes schema bindings definition.arguments (counted head.arguments)) ∧
    (∀ values, arguments schema bindings head definition = .ok values →
      Receives schema bindings definition.arguments (counted head.arguments) values) ∧
    ∀ e, arguments schema bindings head definition = .error e ↔
      ArgumentsFault schema bindings definition.arguments (counted head.arguments) definition.name
        head.position e := by
  refine ⟨(exists_ok_iff_of_reports (reports_arguments hv)).trans not_argumentsFault_iff,
    fun values h => ?_, reports_arguments hv⟩
  obtain ⟨values', hvalues, h⟩ := exists_of_bind_ok h
  split at h
  · cases h
    exact receives_of_argumentValues hv hvalues
  · cases h

end Plan

end GraphGate

namespace GraphGate.Sample

open Query Plan

def search : FieldDefinition Unit :=
  ⟨⟨"search", .named "User" true, [⟨"id", .named "ID" false, none⟩,
    ⟨"text", .named "String" true, none⟩,
    ⟨"first", .named "Int" false, some (.num (.int 10))⟩]⟩, .callable ()⟩

/-- The selection `search(id: 1, __typename: $none, text: $text, id: "7")`. -/
def searching : FieldHead :=
  ⟨⟨1, 3⟩, none, "search", [⟨"id", ⟨1, 14⟩, .number (.int 1)⟩,
    ⟨typename, ⟨1, 29⟩, .var "none"⟩, ⟨"text", ⟨1, 42⟩, .var "text"⟩,
    ⟨"id", ⟨1, 53⟩, .string "7"⟩], []⟩

theorem variablesDeclared_searching :
    VariablesDeclared [("text", none)] (counted searching.arguments) := by
  have hcounted : counted searching.arguments = [⟨"id", ⟨1, 14⟩, .number (.int 1)⟩,
      ⟨"text", ⟨1, 42⟩, .var "text"⟩, ⟨"id", ⟨1, 53⟩, .string "7"⟩] := by cbv
  simp [VariablesDeclared, hcounted, Value.uses, Table.get?]

/-- Of two values the last is received, and a variable without a value is as good as nothing. -/
theorem takes_exactly_declared_searching :
    VariablesDeclared [("text", none)] (counted searching.arguments) ∧
      Takes schema [("text", none)] search.arguments (counted searching.arguments) ∧
      Receives schema [("text", none)] search.arguments (counted searching.arguments)
        [("id", .str "7")] := by
  have hv := variablesDeclared_searching
  obtain ⟨htakes, hreceives, -⟩ :=
    takes_exactly_declared schema [("text", none)] searching search hv
  have hvalues : arguments schema [("text", none)] searching search = .ok [("id", .str "7")] :=
    rfl
  exact ⟨hv, htakes.mp ⟨_, hvalues⟩, hreceives _ hvalues⟩

end GraphGate.Sample
