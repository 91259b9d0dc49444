import GraphGate.Proofs.Coercion.Rules

/-! The values that belong to an input type, and that coercion gives no others. -/
namespace GraphGate

open Query

variable {ρ : Type} {schema : Schema ρ}

/-- The values of a scalar that are not null; scalars that are not built in hold every value. -/
def ScalarHolds (name : String) (v : Json) : Prop :=
  match name with
  | "Int" => ∃ n : Int, v = .num (.int n) ∧ -2 ^ 31 ≤ n ∧ n < 2 ^ 31
  | "Float" => ∃ n : Number, v = .num n
  | "String" | "ID" => ∃ s : String, v = .str s
  | "Boolean" => ∃ b : Bool, v = .bool b
  | _ => True

mutual

/-- Null belongs to nullable types only. -/
inductive Inhabits (schema : Schema ρ) : TypeRef → Json → Prop
  | null {type : TypeRef} (hn : type.nullable = true) : Inhabits schema type .null
  | list {element : TypeRef} {nullable : Bool} {elements : List Json}
    (he : ∀ v ∈ elements, Inhabits schema element v) :
    Inhabits schema (.list element nullable) (.arr elements)
  | scalar {name name' : String} {nullable : Bool} {v : Json}
    (ht : schema.find? name = some (.scalar name')) (hn : v ≠ .null) (hs : ScalarHolds name v) :
    Inhabits schema (.named name nullable) v
  | enum {name name' : String} {values : List String} {nullable : Bool} {s : String}
    (ht : schema.find? name = some (.enum name' values)) (hs : s ∈ values) :
    Inhabits schema (.named name nullable) (.str s)
  | input {name name' : String} {fields : List ArgumentDefinition} {nullable : Bool}
    {object : Table Json}
    (ht : schema.find? name = some (.input name' fields))
    (ho : InhabitsFields schema fields object) :
    Inhabits schema (.named name nullable) (.obj object)

/-- An object holds declared fields only, in their order. One that is not given has its default as
it was declared, or is left out if it may be null. -/
inductive InhabitsFields (schema : Schema ρ) : List ArgumentDefinition → Table Json → Prop
  | nil : InhabitsFields schema [] []
  | given {field : ArgumentDefinition} {fields : List ArgumentDefinition} {v : Json}
    {object : Table Json} (hv : Inhabits schema field.type v)
    (ho : InhabitsFields schema fields object) :
    InhabitsFields schema (field :: fields) ((field.name, v) :: object)
  | default {field : ArgumentDefinition} {fields : List ArgumentDefinition} {v : Json}
    {object : Table Json} (hd : field.default = some v)
    (ho : InhabitsFields schema fields object) :
    InhabitsFields schema (field :: fields) ((field.name, v) :: object)
  | absent {field : ArgumentDefinition} {fields : List ArgumentDefinition} {object : Table Json}
    (hd : field.default = none) (hn : field.type.nullable = true)
    (ho : InhabitsFields schema fields object) :
    InhabitsFields schema (field :: fields) object

end

namespace Query.Constant

mutual

theorem toJson_ofJson : ∀ v : Json, (ofJson v).toJson = v
  | .null | .bool _ | .num _ | .str _ => rfl
  | .arr elements => congrArg Json.arr (elementsToJson_elementsOfJson elements)
  | .obj fields => congrArg Json.obj (fieldsToJson_fieldsOfJson fields)

theorem elementsToJson_elementsOfJson :
    ∀ elements : List Json, elementsToJson (elementsOfJson elements) = elements
  | [] => rfl
  | v :: rest => congrArg₂ List.cons (toJson_ofJson v) (elementsToJson_elementsOfJson rest)

theorem fieldsToJson_fieldsOfJson :
    ∀ fields : List (String × Json), fieldsToJson (fieldsOfJson fields) = fields
  | [] => rfl
  | (k, v) :: rest =>
    congrArg₂ List.cons (congrArg (Prod.mk k) (toJson_ofJson v)) (fieldsToJson_fieldsOfJson rest)

end

theorem ofJson_ne_null {v : Json} (hv : v ≠ .null) : ofJson v ≠ .null := by
  intro h
  apply hv
  rw [← toJson_ofJson v, h]
  rfl

theorem toJson_ne_null {v : Constant} (hv : v ≠ .null) : v.toJson ≠ .null := by
  cases v with
  | var name => exact nomatch name
  | null => exact absurd rfl hv
  | _ => simp [Constant.toJson]

end Query.Constant

namespace Coercion

/-- What is supplied gives only values that belong to the type that is asked for. -/
def Sound (schema : Schema ρ) (supplied : Supplied) : Prop :=
  ∀ type v, supplied type = .ok v → Inhabits schema type v

theorem scalarHolds_of_takes {name : String} {v : Constant} {j : Json} (hv : v ≠ .null)
    (h : ScalarTakes name v j) : j ≠ .null ∧ ScalarHolds name j := by
  cases h with
  | int hl hu => exact ⟨by simp, _, rfl, hl, hu⟩
  | custom hn =>
    refine ⟨Constant.toJson_ne_null hv, ?_⟩
    simp only [Schema.builtinScalars, List.mem_cons, not_or] at hn
    simp [ScalarHolds, hn]
  | _ => exact ⟨by simp, _, rfl⟩

theorem mem_of_enumTakes {values : List String} {v : Constant} {j : Json}
    (h : EnumTakes values v j) : ∃ s ∈ values, j = .str s := by
  cases h with
  | bare hm => exact ⟨_, hm, rfl⟩
  | text hm => exact ⟨_, hm, rfl⟩

mutual

/-- What a constant stands for at a type belongs to the type. -/
theorem inhabits_of_standsFor : ∀ {type : TypeRef} {v : Constant} {j : Json},
    StandsFor schema type v j → Inhabits schema type j
  | _, _, _, .null hn => .null hn
  | _, _, _, .list he => .list (inhabits_of_elementsStandFor he)
  | _, _, _, .single _ _ h => by
    refine .list fun j hj => ?_
    rw [List.mem_singleton.mp hj]
    exact inhabits_of_standsFor h
  | _, _, _, .scalar ht hv hs =>
    have ⟨hn, hj⟩ := scalarHolds_of_takes hv hs
    .scalar ht hn (name_of_find? ht ▸ hj)
  | _, _, _, .enum ht he => by
    obtain ⟨s, hm, rfl⟩ := mem_of_enumTakes he
    exact .enum ht hm
  | _, _, _, .input ht _ hf => .input ht (inhabitsFields_of_standFor hf)

theorem inhabits_of_elementsStandFor : ∀ {type : TypeRef} {vs : List Constant} {js : List Json},
    ElementsStandFor schema type vs js → ∀ j ∈ js, Inhabits schema type j
  | _, _, _, .nil => List.forall_mem_nil _
  | _, _, _, .cons h hs =>
    List.forall_mem_cons.mpr ⟨inhabits_of_standsFor h, inhabits_of_elementsStandFor hs⟩

theorem inhabitsFields_of_standFor : ∀ {fields : Table Constant}
    {declared : List ArgumentDefinition} {object : Table Json},
    FieldsStandFor schema fields declared object → InhabitsFields schema declared object
  | _, _, _, .nil => .nil
  | _, _, _, .supplied _ hw hs => .given (inhabits_of_standsFor hw) (inhabitsFields_of_standFor hs)
  | _, _, _, .default _ hd hs => .default hd (inhabitsFields_of_standFor hs)
  | _, _, _, .absent _ hd hn hs => .absent hd hn (inhabitsFields_of_standFor hs)

end

/-- What a constant is coerced to at a type belongs to the type. -/
theorem sound_coerce (v : Constant) : Sound schema (coerce schema v) :=
  fun type j h => inhabits_of_standsFor (standsFor_of_coerce v type j h)

end Coercion

end GraphGate
