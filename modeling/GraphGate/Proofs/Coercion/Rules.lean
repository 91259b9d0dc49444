import GraphGate.Coercion
import GraphGate.Proofs.Schema
import Mathlib.Algebra.Group.Int.Defs

/-! The rules by which a value stands for another one at an input type. Coercion follows them: it
gives what they give, and fails where they give nothing. -/
namespace GraphGate

open Query

variable {ρ : Type} {schema : Schema ρ}

/-- What a value that is not null stands for at a scalar. One that is not built in takes all. -/
inductive ScalarTakes : String → Constant → Json → Prop
  | int {n : Int} (hl : -2 ^ 31 ≤ n) (hu : n < 2 ^ 31) :
    ScalarTakes "Int" (.number (.int n)) (.num (.int n))
  | float {n : Number} : ScalarTakes "Float" (.number n) (.num n)
  | string {s : String} : ScalarTakes "String" (.string s) (.str s)
  | idText {s : String} : ScalarTakes "ID" (.string s) (.str s)
  | idNumber {n : Int} : ScalarTakes "ID" (.number (.int n)) (.str (toString n))
  | boolean {b : Bool} : ScalarTakes "Boolean" (.bool b) (.bool b)
  | custom {name : String} {v : Constant} (hn : name ∉ Schema.builtinScalars) :
    ScalarTakes name v v.toJson

/-- What a value stands for at an enum: a declared name, written bare or as a string. -/
inductive EnumTakes (values : List String) : Constant → Json → Prop
  | bare {name : String} (hm : name ∈ values) : EnumTakes values (.enum name) (.str name)
  | text {name : String} (hm : name ∈ values) : EnumTakes values (.string name) (.str name)

mutual

/-- What a value stands for at a type. -/
inductive StandsFor (schema : Schema ρ) : TypeRef → Constant → Json → Prop
  | null {type : TypeRef} (hn : type.nullable = true) : StandsFor schema type .null .null
  | list {element : TypeRef} {nullable : Bool} {elements : List Constant} {results : List Json}
    (he : ElementsStandFor schema element elements results) :
    StandsFor schema (.list element nullable) (.list elements) (.arr results)
  /-- What is neither null nor a list stands for the list of itself. -/
  | single {element : TypeRef} {nullable : Bool} {v : Constant} {w : Json} (hn : v ≠ .null)
    (hl : ∀ elements, v ≠ .list elements) (h : StandsFor schema element v w) :
    StandsFor schema (.list element nullable) v (.arr [w])
  | scalar {name name' : String} {nullable : Bool} {v : Constant} {w : Json}
    (ht : schema.find? name = some (.scalar name')) (hv : v ≠ .null) (hs : ScalarTakes name' v w) :
    StandsFor schema (.named name nullable) v w
  | enum {name name' : String} {values : List String} {nullable : Bool} {v : Constant} {w : Json}
    (ht : schema.find? name = some (.enum name' values)) (he : EnumTakes values v w) :
    StandsFor schema (.named name nullable) v w
  | input {name name' : String} {declared : List ArgumentDefinition} {nullable : Bool}
    {fields : Table Constant} {object : Table Json}
    (ht : schema.find? name = some (.input name' declared))
    (hd : ∀ key ∈ fields.names, key ∈ declared.map (·.name))
    (hf : FieldsStandFor schema fields declared object) :
    StandsFor schema (.named name nullable) (.object fields) (.obj object)

inductive ElementsStandFor (schema : Schema ρ) : TypeRef → List Constant → List Json → Prop
  | nil {type : TypeRef} : ElementsStandFor schema type [] []
  | cons {type : TypeRef} {v : Constant} {w : Json} {vs : List Constant} {ws : List Json}
    (h : StandsFor schema type v w) (hs : ElementsStandFor schema type vs ws) :
    ElementsStandFor schema type (v :: vs) (w :: ws)

/-- What the fields of an object stand for, in the order in which they are declared. A field that is
not supplied has its default as it is, or is left out if it may be null. -/
inductive FieldsStandFor (schema : Schema ρ) :
    Table Constant → List ArgumentDefinition → Table Json → Prop
  | nil {fields : Table Constant} : FieldsStandFor schema fields [] []
  | supplied {fields : Table Constant} {d : ArgumentDefinition} {rest : List ArgumentDefinition}
    {v : Constant} {w : Json} {object : Table Json} (hv : fields.get? d.name = some v)
    (hw : StandsFor schema d.type v w) (hs : FieldsStandFor schema fields rest object) :
    FieldsStandFor schema fields (d :: rest) ((d.name, w) :: object)
  | default {fields : Table Constant} {d : ArgumentDefinition} {rest : List ArgumentDefinition}
    {w : Json} {object : Table Json} (hv : fields.get? d.name = none) (hd : d.default = some w)
    (hs : FieldsStandFor schema fields rest object) :
    FieldsStandFor schema fields (d :: rest) ((d.name, w) :: object)
  | absent {fields : Table Constant} {d : ArgumentDefinition} {rest : List ArgumentDefinition}
    {object : Table Json} (hv : fields.get? d.name = none) (hd : d.default = none)
    (hn : d.type.nullable = true) (hs : FieldsStandFor schema fields rest object) :
    FieldsStandFor schema fields (d :: rest) object

end

namespace Coercion

variable {v : Constant} {w : Json}

theorem isInt32_iff {n : Int} : isInt32 n = true ↔ -2 ^ 31 ≤ n ∧ n < 2 ^ 31 := by
  rw [isInt32, Bool.and_eq_true, decide_eq_true_eq, decide_eq_true_eq]
  exact Iff.rfl

theorem scalar_iff {name : String} : scalar name v = .ok w ↔ ScalarTakes name v w := by
  constructor
  · intro h
    unfold scalar at h
    split at h
    · split at h
      · split at h
        · next hn =>
          cases h
          obtain ⟨hl, hu⟩ := isInt32_iff.mp hn
          exact .int hl hu
        · cases h
      · cases h
    · split at h
      · cases h
        exact .float
      · cases h
    · split at h
      · cases h
        exact .string
      · cases h
    · split at h
      · cases h
        exact .idText
      · cases h
        exact .idNumber
      · cases h
    · split at h
      · cases h
        exact .boolean
      · cases h
    · cases h
      exact .custom (by simp_all [Schema.builtinScalars])
  · intro h
    cases h with
    | int hl hu => exact if_pos (isInt32_iff.mpr ⟨hl, hu⟩)
    | custom hn =>
      simp only [Schema.builtinScalars, List.mem_cons, not_or] at hn
      simp [scalar, hn]
    | _ => rfl

theorem enum_iff {name : String} {values : List String} :
    enum name values v = .ok w ↔ EnumTakes values v w := by
  constructor
  · intro h
    unfold enum at h
    split at h
    · split at h
      · next hm =>
        cases h
        exact .bare (by simpa using hm)
      · cases h
    · split at h
      · next hm =>
        cases h
        exact .text (by simpa using hm)
      · cases h
    · cases h
  · intro h
    cases h with
    | bare hm => exact if_pos (by simpa using hm)
    | text hm => exact if_pos (by simpa using hm)

section Fields

variable {name : String} {fields : Table Constant} {declared : List ArgumentDefinition}
  {object : Table Json}

theorem get?_coerceFields {key : String} :
    (coerceFields schema fields).get? key = (fields.get? key).map (coerce schema) := by
  induction fields with
  | nil => rfl
  | cons pair rest ih =>
    obtain ⟨k, v⟩ := pair
    rw [coerceFields, Table.get?, Table.get?]
    split
    · rfl
    · exact ih

theorem names_coerceFields : (coerceFields schema fields).names = fields.names := by
  induction fields with
  | nil => rfl
  | cons pair rest ih => exact congrArg (List.cons pair.1) ih

/-- Stray names are looked for among the supplied ones. -/
theorem stray_eq_none_iff :
    (fields.names.find? fun key => !(declared.map (·.name)).contains key) = none ↔
      ∀ key ∈ fields.names, key ∈ declared.map (·.name) := by
  simp [List.find?_eq_none]

theorem fieldsStandFor_of_inputFields
    (hs : ∀ key v, fields.get? key = some v → ∀ type w,
      coerce schema v type = .ok w → StandsFor schema type v w)
    (h : inputFields name (coerceFields schema fields) declared = .ok object) :
    FieldsStandFor schema fields declared object := by
  induction declared generalizing object with
  | nil =>
    cases h
    exact .nil
  | cons d rest ih =>
    rw [inputFields, get?_coerceFields] at h
    cases hv : fields.get? d.name with
    | some v =>
      rw [hv] at h
      obtain ⟨w, hw, h⟩ := exists_of_bind_ok h
      obtain ⟨more, hm, h⟩ := exists_of_bind_ok h
      cases h
      exact .supplied hv (hs _ v hv _ _ hw) (ih hm)
    | none =>
      rw [hv] at h
      cases hd : d.default with
      | some w =>
        rw [hd] at h
        obtain ⟨more, hm, h⟩ := exists_of_bind_ok h
        cases h
        exact .default hv hd (ih hm)
      | none =>
        rw [hd] at h
        simp only [Option.map_none] at h
        split at h
        · next hn => exact .absent hv hd hn (ih h)
        · cases h

end Fields

/-- What is supplied for the fields of a value, if it is an object. -/
def suppliedOf (schema : Schema ρ) : Constant → Table Supplied
  | .object fields => coerceFields schema fields
  | _ => []

theorem coerce_named {name : String} {nullable : Bool} (hv : v ≠ .null) :
    coerce schema v (.named name nullable) = atName schema v (suppliedOf schema v) name := by
  cases v with
  | var name => exact nomatch name
  | null => exact absurd rfl hv
  | list elements =>
    rw [coerce, suppliedOf]
    simp
  | object fields => rw [coerce, wrapped, suppliedOf]
  | _ => rfl

theorem coerce_single {element : TypeRef} {nullable : Bool} (hv : v ≠ .null)
    (hl : ∀ elements, v ≠ .list elements) :
    coerce schema v (.list element nullable) =
      (coerce schema v element).map fun w => .arr [w] := by
  cases v with
  | var name => exact nomatch name
  | null => exact absurd rfl hv
  | list elements => exact absurd rfl (hl elements)
  | object fields => rw [coerce, coerce, wrapped]
  | _ => rw [coerce, coerce, wrapped] <;> simp

section Sound

theorem standsFor_of_named {name : String} {nullable : Bool} (hv : v ≠ .null)
    (hs : ∀ fields, v = .object fields → ∀ key v, Table.get? key fields = some v → ∀ type w,
      coerce schema v type = .ok w → StandsFor schema type v w)
    (h : coerce schema v (.named name nullable) = .ok w) :
    StandsFor schema (.named name nullable) v w := by
  rw [coerce_named hv, atName] at h
  split at h
  · next ht =>
    obtain rfl := name_of_find? ht
    exact .scalar ht hv (scalar_iff.mp h)
  · next ht => exact .enum ht (enum_iff.mp h)
  · next ht =>
    split at h
    · next fields =>
      rw [suppliedOf, inputObject, names_coerceFields] at h
      obtain ⟨object, ho, h⟩ := exists_of_bind_ok h
      split at h
      · cases h
      · next hd =>
        cases h
        exact .input ht (stray_eq_none_iff.mp hd) (fieldsStandFor_of_inputFields (hs fields rfl) ho)
    · cases h
  · cases h
  · cases h

theorem standsFor_of_single (hv : v ≠ .null) (hl : ∀ elements, v ≠ .list elements)
    (hs : ∀ fields, v = .object fields → ∀ key v, Table.get? key fields = some v → ∀ type w,
      coerce schema v type = .ok w → StandsFor schema type v w)
    (type : TypeRef) (w : Json) (h : coerce schema v type = .ok w) : StandsFor schema type v w := by
  -- The value stays the same while the lists around it are taken off, so the type carries the
  -- induction.
  induction type generalizing w with
  | named name nullable => exact standsFor_of_named hv hs h
  | list element nullable ih =>
    rw [coerce_single hv hl] at h
    obtain ⟨w, hw, rfl⟩ := exists_of_map_ok h
    exact .single hv hl (ih w hw)

mutual

/-- What coercion makes of a constant is what the constant stands for. -/
theorem standsFor_of_coerce : ∀ (v : Constant) (type : TypeRef) (w : Json),
    coerce schema v type = .ok w → StandsFor schema type v w
  | .var name, _, _, _ => nomatch name
  | .null, type, w, h => by
    rw [coerce] at h
    split at h
    · next hn =>
      cases h
      exact .null hn
    · cases h
  | .list elements, .named name nullable, w, h => standsFor_of_named (by simp) (by simp) h
  | .list elements, .list element nullable, w, h => by
    rw [coerce] at h
    obtain ⟨ws, hs, rfl⟩ := exists_of_map_ok h
    exact .list (elementsStandFor_of_coerceElements elements element ws hs)
  | .object fields, type, w, h => by
    -- An object under lists is coerced at its own type in the end, and only there are its fields
    -- met.
    refine standsFor_of_single (by simp) (by simp) ?_ type w h
    rintro _ ⟨⟩
    exact standsFor_of_coerceFields fields
  | .number _, type, w, h => standsFor_of_single (by simp) (by simp) (by simp) type w h
  | .string _, type, w, h => standsFor_of_single (by simp) (by simp) (by simp) type w h
  | .bool _, type, w, h => standsFor_of_single (by simp) (by simp) (by simp) type w h
  | .enum _, type, w, h => standsFor_of_single (by simp) (by simp) (by simp) type w h

theorem elementsStandFor_of_coerceElements : ∀ (vs : List Constant) (type : TypeRef)
    (ws : List Json), coerceElements schema vs type = .ok ws → ElementsStandFor schema type vs ws
  | [], type, ws, h => by
    cases h
    exact .nil
  | v :: rest, type, ws, h => by
    rw [coerceElements] at h
    obtain ⟨w, hw, h⟩ := exists_of_bind_ok h
    obtain ⟨more, hm, h⟩ := exists_of_bind_ok h
    cases h
    exact .cons (standsFor_of_coerce v type w hw)
      (elementsStandFor_of_coerceElements rest type more hm)

theorem standsFor_of_coerceFields : ∀ (fields : List (String × Constant)) (key : String)
    (v : Constant), Table.get? key fields = some v → ∀ (type : TypeRef) (w : Json),
    coerce schema v type = .ok w → StandsFor schema type v w
  | [], _, _, h => nomatch h
  | (name, v) :: rest, key, v', h => by
    rw [Table.get?] at h
    split at h
    · cases h
      exact standsFor_of_coerce v
    · exact standsFor_of_coerceFields rest key v' h

end

end Sound

theorem ne_null_of_enumTakes {values : List String} (h : EnumTakes values v w) : v ≠ .null := by
  cases h <;> nofun

mutual

/-- What a constant stands for is what coercion makes of it. -/
theorem coerce_of_standsFor : ∀ {type : TypeRef} {v : Constant} {w : Json},
    StandsFor schema type v w → coerce schema v type = .ok w
  | _, _, _, .null hn => by
    rw [coerce, if_pos hn]
  | _, _, _, .list he => by
    rw [coerce, coerceElements_of_standFor he]
    rfl
  | _, _, _, .single hv hl h => by
    rw [coerce_single hv hl, coerce_of_standsFor h]
    rfl
  | _, _, _, .scalar ht hv hs => by
    obtain rfl := name_of_find? ht
    rw [coerce_named hv, atName, ht]
    exact scalar_iff.mpr hs
  | _, _, _, .enum ht he => by
    rw [coerce_named (ne_null_of_enumTakes he), atName, ht]
    exact enum_iff.mpr he
  | _, _, _, .input ht hd hf => by
    rw [coerce_named (by simp), atName, ht]
    simp only [suppliedOf, inputObject, names_coerceFields, inputFields_of_standFor hf, ok_bind,
      stray_eq_none_iff.mpr hd]
    rfl

theorem coerceElements_of_standFor : ∀ {type : TypeRef} {vs : List Constant} {ws : List Json},
    ElementsStandFor schema type vs ws → coerceElements schema vs type = .ok ws
  | _, _, _, .nil => rfl
  | _, _, _, .cons h hs => by
    rw [coerceElements, coerce_of_standsFor h, coerceElements_of_standFor hs]
    rfl

theorem inputFields_of_standFor {name : String} : ∀ {fields : Table Constant}
    {declared : List ArgumentDefinition} {object : Table Json},
    FieldsStandFor schema fields declared object →
      inputFields name (coerceFields schema fields) declared = .ok object
  | _, _, _, .nil => rfl
  | _, _, _, .supplied hv hw hs => by
    rw [inputFields, get?_coerceFields, hv]
    simp only [Option.map_some, coerce_of_standsFor hw, inputFields_of_standFor hs]
    rfl
  | _, _, _, .default hv hd hs => by
    rw [inputFields, get?_coerceFields, hv, hd]
    simp only [Option.map_none, inputFields_of_standFor hs]
    rfl
  | _, _, _, .absent hv hd hn hs => by
    rw [inputFields, get?_coerceFields, hv, hd]
    exact (if_pos hn).trans (inputFields_of_standFor hs)

end

/-- Coercion follows the rules: it gives a value at a type if and only if that is what the constant
stands for there. -/
theorem coerce_follows_rules (schema : Schema ρ) (type : TypeRef) (v : Constant) (w : Json) :
    coerce schema v type = .ok w ↔ StandsFor schema type v w :=
  ⟨standsFor_of_coerce v type w, coerce_of_standsFor⟩

end Coercion

end GraphGate
