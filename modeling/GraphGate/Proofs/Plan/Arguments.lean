import GraphGate.Proofs.Json
import GraphGate.Proofs.Plan.WellFormed

/-! What a query supplies for the arguments of a field, and that a plan holds it at the declared
types. -/
namespace GraphGate

namespace Query.Value

variable {ν ε : Type}

mutual

/-- The constant that a value comes to where every variable stands for one. -/
def valued (constant : ν → Constant) : Value ν → Constant
  | .var name => constant name
  | .null => .null
  | .number n => .number n
  | .string s => .string s
  | .bool b => .bool b
  | .enum name => .enum name
  | .list elements => .list (valuedElements constant elements)
  | .object fields => .object (valuedFields constant fields)

def valuedElements (constant : ν → Constant) : List (Value ν) → List Constant
  | [] => []
  | v :: rest => valued constant v :: valuedElements constant rest

def valuedFields (constant : ν → Constant) : List (String × Value ν) → List (String × Constant)
  | [] => []
  | (k, v) :: rest => (k, valued constant v) :: valuedFields constant rest

end

variable {attempt : ν → Except ε Constant} {constant : ν → Constant}

mutual

/-- Substitution that succeeds puts those constants in the place of the variables. -/
theorem valued_of_substitute (hc : ∀ name c, attempt name = .ok c → c = constant name) :
    ∀ {v : Value ν} {c : Constant}, v.substitute attempt = .ok c → c = v.valued constant
  | .var name, c, h => hc name c h
  | .null, c, h | .number _, c, h | .string _, c, h | .bool _, c, h | .enum _, c, h => by
    cases h
    rfl
  | .list elements, c, h => by
    obtain ⟨constants, hs, rfl⟩ := exists_of_map_ok h
    rw [valued, valuedElements_of_substitute hc hs]
  | .object fields, c, h => by
    obtain ⟨constants, hs, rfl⟩ := exists_of_map_ok h
    rw [valued, valuedFields_of_substitute hc hs]

theorem valuedElements_of_substitute (hc : ∀ name c, attempt name = .ok c → c = constant name) :
    ∀ {elements : List (Value ν)} {constants : List Constant},
      substituteElements attempt elements = .ok constants →
      constants = valuedElements constant elements
  | [], _, h => by
    cases h
    rfl
  | v :: rest, _, h => by
    obtain ⟨first, hf, h⟩ := exists_of_bind_ok h
    obtain ⟨more, hm, h⟩ := exists_of_bind_ok h
    cases h
    rw [valuedElements, valued_of_substitute hc hf, valuedElements_of_substitute hc hm]

theorem valuedFields_of_substitute (hc : ∀ name c, attempt name = .ok c → c = constant name) :
    ∀ {fields : List (String × Value ν)} {constants : List (String × Constant)},
      substituteFields attempt fields = .ok constants → constants = valuedFields constant fields
  | [], _, h => by
    cases h
    rfl
  | (k, v) :: rest, _, h => by
    obtain ⟨first, hf, h⟩ := exists_of_bind_ok h
    obtain ⟨more, hm, h⟩ := exists_of_bind_ok h
    cases h
    rw [valuedFields, valued_of_substitute hc hf, valuedFields_of_substitute hc hm]

end

end Query.Value

namespace Plan

open Query

variable {ρ : Type} {schema : Schema ρ} {bindings : Bindings} {position : Position} {field : String}

/-- What is left of a value when the variables have theirs. One that has none is null inside of the
value, and nothing at all as a whole. -/
def given? (bindings : Bindings) : Literal → Option Constant
  | .var name => (bindings.get? name).join
  | value => some (value.valued fun name => (bindings.get? name).join.getD .null)

/-- What a query supplies under an argument's name. Of several values the last counts. -/
def supplied? (bindings : Bindings) (arguments : List Argument) (name : String) : Option Constant :=
  (arguments.reverse.find? (·.name = name)).bind fun argument => given? bindings argument.value

theorem given?_of_resolveArgument {value : Literal} {result : Option Constant}
    (h : resolveArgument bindings position value = .ok result) :
    result = given? bindings value := by
  have hvar : ∀ name c, variableConstant bindings position name = .ok c →
      c = (bindings.get? name).join.getD .null := by
    intro name c h
    unfold variableConstant at h
    split at h
    · next hb =>
      cases h
      rw [hb]
      rfl
    · cases h
  unfold resolveArgument at h
  split at h
  · next name =>
    rw [given?]
    split at h
    · next hb =>
      cases h
      rw [hb]
      rfl
    · cases h
  · next hv =>
    obtain ⟨constant, hs, rfl⟩ := exists_of_map_ok h
    rw [given?, Value.valued_of_substitute hvar hs]
    exact hv

theorem get?_suppliedTable {arguments : List Argument} {name : String} (hn : name ≠ typename) :
    (suppliedTable arguments).get? name = arguments.reverse.find? (·.name = name) := by
  have hfilter : ∀ a : Argument, ((a.name != typename) = true ∧ a.name = name) ↔ a.name = name := by
    intro a
    refine and_iff_right_of_imp ?_
    rintro rfl
    simpa using hn
  rw [suppliedTable, Table.get?_ofPairs, ← List.map_reverse, List.find?_map, ← List.filter_reverse,
    List.find?_filter, Option.map_map]
  simp only [Function.comp_def, decide_eq_true_eq, hfilter]
  exact Option.map_id'

/-- Values of the declared arguments in their order: what the query supplies, at its type and up to
`R`, and for the others what `fallback` says. -/
structure Filled (R : Json → Json → Prop) (fallback : ArgumentDefinition → Option Json)
    (schema : Schema ρ) (bindings : Bindings) (written : List Argument)
    (declared : List ArgumentDefinition) (values : Table Json) : Prop where
  inOrder : values.names.Sublist (declared.map (·.name))
  given : ∀ d ∈ declared, d.name ≠ typename → ∀ constant,
    supplied? bindings written d.name = some constant →
      ∃ v w, values.get? d.name = some v ∧ Coercion.coerce schema constant d.type = .ok w ∧ R v w
  omitted : ∀ d ∈ declared, d.name ≠ typename → supplied? bindings written d.name = none →
    values.get? d.name = fallback d

section Filled

variable {declared : List ArgumentDefinition} {values : Table Json} {written : List Argument}
  {d : ArgumentDefinition}

theorem supplied?_of_writtenValue {result : Option Constant} {name : String} (hn : name ≠ typename)
    (h : writtenValue bindings (suppliedTable written) name = .ok result) :
    result = supplied? bindings written name := by
  unfold writtenValue at h
  rw [get?_suppliedTable hn] at h
  rw [supplied?]
  split at h
  · next argument ha =>
    rw [ha]
    exact given?_of_resolveArgument h
  · next ha =>
    cases h
    rw [ha]
    rfl

/-- A name that is declared once has the value of its declaration. -/
theorem argumentValue_of_mem {supplied : Table Argument} (hd : (declared.map (·.name)).Nodup)
    (h : argumentValues schema bindings position field supplied declared = .ok values)
    (hm : d ∈ declared) :
    argumentValue schema bindings position field supplied d = .ok (values.get? d.name) := by
  induction declared generalizing values with
  | nil => cases hm
  | cons first rest ih =>
    rw [argumentValues] at h
    obtain ⟨value, hv, h⟩ := exists_of_bind_ok h
    obtain ⟨more, hmore, h⟩ := exists_of_bind_ok h
    cases h
    obtain ⟨hfirst, hrest⟩ := List.nodup_cons.mp hd
    rcases List.mem_cons.mp hm with rfl | hm
    · have habsent : more.get? d.name = none := by
        refine Table.get?_of_absent fun hn => hfirst ?_
        exact (fit_of_argumentValues hmore).inOrder.subset hn
      rw [hv]
      cases value with
      | none => rw [habsent]
      | some v => rw [Table.get?, if_pos rfl]
    · have hne : first.name ≠ d.name := fun he => hfirst (List.mem_map.mpr ⟨d, hm, he.symm⟩)
      rw [ih hrest hmore hm]
      cases value with
      | none => rfl
      | some v => rw [Table.get?, if_neg hne]

/-- The arguments in a plan are those that are supplied, and no others. -/
theorem filled_of_arguments {head : FieldHead} {definition : FieldDefinition ρ}
    (hd : (definition.arguments.map (·.name)).Nodup)
    (h : arguments schema bindings head definition = .ok values) :
    Filled Eq (fun _ => none) schema bindings head.arguments definition.arguments values := by
  obtain ⟨values', hv, h⟩ := exists_of_bind_ok h
  have he : values' = values := by
    split at h
    · exact Except.ok.inj h
    · cases h
  subst he
  have hwritten : ∀ d ∈ definition.arguments, d.name ≠ typename →
      typedValue schema head.position definition.name d
        (supplied? bindings head.arguments d.name) = .ok (values'.get? d.name) := by
    intro d hm hn
    have ha := argumentValue_of_mem hd hv hm
    rw [argumentValue_eq] at ha
    obtain ⟨result, hr, ht⟩ := exists_of_bind_ok ha
    rw [← supplied?_of_writtenValue hn hr]
    exact ht
  refine ⟨(fit_of_argumentValues hv).inOrder, fun d hm hn constant hs => ?_, fun d hm hn hs => ?_⟩
  · have ht := hwritten d hm hn
    rw [hs, typedValue] at ht
    split at ht
    · next v hc => exact ⟨v, v, (Except.ok.inj ht).symm, hc, rfl⟩
    · cases ht
  · have ht := hwritten d hm hn
    rw [hs, typedValue] at ht
    split at ht
    · cases ht
    · exact (Except.ok.inj ht).symm

/-- Arguments that count as the same as those that are supplied. -/
theorem filled_of_matches {values' : Table Json} (hd : (declared.map (·.name)).Nodup)
    (hs : values.names.Sublist (declared.map (·.name)))
    (hm : (Json.obj values).Matches (.obj values'))
    (h : Filled Eq (fun _ => none) schema bindings written declared values') :
    Filled Json.Matches (fun _ => none) schema bindings written declared values where
  inOrder := hs
  given := by
    intro d hd' hn constant hc
    obtain ⟨w, _, hw, hcoerce, rfl⟩ := h.given d hd' hn constant hc
    obtain ⟨v, hv, hvw⟩ := Json.exists_left_of_matches (hs.nodup hd) hm hw
    exact ⟨v, w, hv, hcoerce, hvw⟩
  omitted := by
    intro d hd' hn hc
    have hnone := h.omitted d hd' hn hc
    cases hv : values.get? d.name with
    | none => rfl
    | some v =>
      obtain ⟨w, hw, -⟩ := Json.exists_right_of_matches hm hv
      rw [hnone] at hw
      cases hw

end Filled

end Plan

end GraphGate
