import GraphGate.Proofs.Plan.Inhabitation
import GraphGate.Proofs.Table

/-! What coercion gives is left as it is when it is coerced again: a value that belongs to a type
stands for itself there, as long as the declared defaults do. -/
namespace GraphGate

open Query

variable {ρ : Type} {schema : Schema ρ}

namespace Query.Constant

theorem get?_fieldsOfJson {fields : List (String × Json)} {key : String} :
    Table.get? key (fieldsOfJson fields) = (Table.get? key fields).map ofJson := by
  induction fields with
  | nil => rfl
  | cons pair rest ih =>
    obtain ⟨k, v⟩ := pair
    rw [fieldsOfJson, Table.get?, Table.get?]
    split
    · rfl
    · exact ih

theorem names_fieldsOfJson {fields : List (String × Json)} :
    Table.names (fieldsOfJson fields) = Table.names fields := by
  induction fields with
  | nil => rfl
  | cons pair rest ih => exact congrArg (List.cons pair.1) ih

end Query.Constant

namespace Coercion

/-- Every declared default of an input object's field is what coercion makes of it at the field's
type. -/
def DefaultsFixed (schema : Schema ρ) : Prop :=
  ∀ name fields, .input name fields ∈ schema.types → ∀ d ∈ fields, ∀ w, d.default = some w →
    coerce schema (.ofJson w) d.type = .ok w

theorem scalarTakes_of_holds {name : String} {w : Json} (h : ScalarHolds name w) :
    ScalarTakes name (.ofJson w) w := by
  unfold ScalarHolds at h
  split at h
  · obtain ⟨n, rfl, hl, hu⟩ := h
    exact .int hl hu
  · obtain ⟨n, rfl⟩ := h
    exact .float
  · obtain ⟨s, rfl⟩ := h
    exact .string
  · obtain ⟨s, rfl⟩ := h
    exact .idText
  · obtain ⟨b, rfl⟩ := h
    exact .boolean
  · have hn : name ∉ Schema.builtinScalars := by simp_all [Schema.builtinScalars]
    have htakes : ScalarTakes name (.ofJson w) (Constant.ofJson w).toJson := .custom hn
    rwa [Constant.toJson_ofJson] at htakes

theorem names_of_inhabitsFields {declared : List ArgumentDefinition} {object : Table Json}
    (h : InhabitsFields schema declared object) :
    object.names.Sublist (declared.map (·.name)) := by
  induction declared generalizing object with
  | nil =>
    cases h
    exact .slnil
  | cons d rest ih =>
    cases h with
    | given _ ho => exact (ih ho).cons_cons d.name
    | default _ ho => exact (ih ho).cons_cons d.name
    | absent _ _ ho => exact (ih ho).cons d.name

theorem elementsStandFor_ofJson {type : TypeRef} {elements : List Json}
    (h : ∀ v ∈ elements, StandsFor schema type (.ofJson v) v) :
    ElementsStandFor schema type (Constant.elementsOfJson elements) elements := by
  induction elements with
  | nil => exact .nil
  | cons v rest ih =>
    obtain ⟨hv, hrest⟩ := List.forall_mem_cons.mp h
    exact .cons hv (ih hrest)

/-- What is supplied for declared fields is what an object has for them. -/
def Resupplies (fields : Table Constant) (declared : List ArgumentDefinition)
    (object : Table Json) : Prop :=
  ∀ d ∈ declared, fields.get? d.name = (object.get? d.name).map .ofJson

theorem resupplies_cons {fields : Table Constant} {d : ArgumentDefinition}
    {rest : List ArgumentDefinition} {w : Json} {object : Table Json}
    (hd : d.name ∉ rest.map (·.name)) (h : Resupplies fields (d :: rest) ((d.name, w) :: object)) :
    fields.get? d.name = some (.ofJson w) ∧ Resupplies fields rest object := by
  refine ⟨(h d List.mem_cons_self).trans (by simp [Table.get?]), fun d' hm => ?_⟩
  have hne : d.name ≠ d'.name := fun he => hd (he ▸ List.mem_map.mpr ⟨d', hm, rfl⟩)
  rw [h d' (.tail _ hm), Table.get?, if_neg hne]

mutual

/-- A value of a type stands for itself when it is supplied again. -/
theorem standsFor_of_inhabits (hn : schema.InputsDistinct) (hf : DefaultsFixed schema) :
    ∀ {type : TypeRef} {w : Json}, Inhabits schema type w → StandsFor schema type (.ofJson w) w
  | _, _, .null hnull => .null hnull
  | _, _, .list he =>
    .list (elementsStandFor_ofJson fun v hv => standsFor_of_inhabits hn hf (he v hv))
  | _, _, .scalar ht hv hs => by
    obtain rfl := name_of_find? ht
    exact .scalar ht (Constant.ofJson_ne_null hv) (scalarTakes_of_holds hs)
  | _, _, .enum ht hs => .enum ht (.text hs)
  | _, _, @Inhabits.input _ _ _ _ declared _ object ht ho => by
    have hm := List.mem_of_find?_eq_some ht
    refine .input ht ?_ (fieldsStandFor_of_inhabits hn hf ho (hn _ _ hm) ?_ ?_)
    · rw [Constant.names_fieldsOfJson]
      exact fun key hk => (names_of_inhabitsFields ho).subset hk
    · exact fun d hd w hw => standsFor_of_coerce _ _ _ (hf _ _ hm d hd w hw)
    · exact fun d _ => Constant.get?_fieldsOfJson

/-- The fields that an object has are supplied, those with a default among them; the others are
absent again. -/
theorem fieldsStandFor_of_inhabits (hn : schema.InputsDistinct) (hf : DefaultsFixed schema) :
    ∀ {fields : Table Constant} {declared : List ArgumentDefinition} {object : Table Json},
    InhabitsFields schema declared object → (declared.map (·.name)).Nodup →
    (∀ d ∈ declared, ∀ w, d.default = some w → StandsFor schema d.type (.ofJson w) w) →
    Resupplies fields declared object → FieldsStandFor schema fields declared object
  | _, _, _, .nil, _, _, _ => .nil
  | _, _, _, .given hv ho, hd, hdefault, hget => by
    obtain ⟨hname, hrest⟩ := List.nodup_cons.mp hd
    obtain ⟨hfirst, hget⟩ := resupplies_cons hname hget
    exact .supplied hfirst (standsFor_of_inhabits hn hf hv)
      (fieldsStandFor_of_inhabits hn hf ho hrest (fun d hm => hdefault d (.tail _ hm)) hget)
  | _, _, _, .default hw ho, hd, hdefault, hget => by
    obtain ⟨hname, hrest⟩ := List.nodup_cons.mp hd
    obtain ⟨hfirst, hget⟩ := resupplies_cons hname hget
    exact .supplied hfirst (hdefault _ List.mem_cons_self _ hw)
      (fieldsStandFor_of_inhabits hn hf ho hrest (fun d hm => hdefault d (.tail _ hm)) hget)
  | _, _, _, .absent hnone hnull ho, hd, hdefault, hget => by
    obtain ⟨hname, hrest⟩ := List.nodup_cons.mp hd
    have habsent := Table.get?_of_absent fun hm => hname ((names_of_inhabitsFields ho).subset hm)
    have hfirst := hget _ List.mem_cons_self
    rw [habsent] at hfirst
    exact .absent hfirst hnone hnull (fieldsStandFor_of_inhabits hn hf ho hrest
      (fun d hm => hdefault d (.tail _ hm)) fun d hm => hget d (.tail _ hm))

end

/-- What coercion gives, it gives again when that is supplied in its turn: the same value with its
keys in the same order. -/
theorem coerce_idempotent (hn : schema.InputsDistinct) (hf : DefaultsFixed schema) {type : TypeRef}
    {v : Constant} {w : Json} (h : coerce schema v type = .ok w) :
    coerce schema (.ofJson w) type = .ok w := by
  have hinhabits : Inhabits schema type w := sound_coerce v type w h
  exact coerce_of_standsFor (standsFor_of_inhabits hn hf hinhabits)

end Coercion

end GraphGate

namespace GraphGate.Sample

open Query Coercion

/-- The fields of `input Order { title: Direction!, limit: Int = 10, ids: [ID!], next: Order }`. -/
def orderFields : List ArgumentDefinition :=
  [⟨"title", .named "Direction" false, none⟩, ⟨"limit", .named "Int" true, some (.num (.int 10))⟩,
    ⟨"ids", .list (.named "ID" false) true, none⟩, ⟨"next", .named "Order" true, none⟩]

def orderDefinitions : List (TypeDefinition Unit) :=
  [.object ⟨"Query", [⟨⟨"ok", .named "Boolean" true, []⟩, .default⟩], none⟩,
    .enum "Direction" ["ASC", "DESC"], .input "Order" orderFields]

def orderSchema : Schema Unit where
  types := Schema.builtinScalars.map .scalar ++ orderDefinitions
  query := "Query"
  mutation := none

theorem build_order : Schema.build orderDefinitions "Query" none = .ok orderSchema := by cbv

theorem mem_orderDefinitions {name : String} {fields : List ArgumentDefinition}
    (h : .input name fields ∈ orderDefinitions) : fields = orderFields := by
  simp only [orderDefinitions, List.mem_cons, List.not_mem_nil, or_false, reduceCtorEq,
    false_or] at h
  exact (TypeDefinition.input.inj h).2

theorem inputsDistinct_order : orderSchema.InputsDistinct :=
  inputsDistinct_of_build build_order fun _ _ h =>
    ⟨orderFields, (mem_orderDefinitions h).trans (by cbv)⟩

theorem defaultsFixed_order : DefaultsFixed orderSchema := by
  intro name fields hm d hd w hw
  obtain rfl : fields = orderFields := by
    rcases scalar_or_mem hm with ⟨_, hs⟩ | hm
    · cases hs
    · exact mem_orderDefinitions hm
  simp only [orderFields, List.mem_cons, List.not_mem_nil, or_false] at hd
  rcases hd with rfl | rfl | rfl | rfl
  · cases hw
  · cases hw
    have hten : ScalarTakes "Int" (.number (.int 10)) (.num (.int 10)) := .int (by simp) (by simp)
    exact coerce_of_standsFor (.scalar (by cbv) (Constant.ofJson_ne_null (by simp)) hten)
  · cases hw
  · cases hw

/-- A single object for a list of them, with a bare enum name and a number for an identifier. -/
theorem coerce_idempotent_order :
    let written : Constant := .object [("next", .object [("title", .string "ASC")]),
      ("ids", .number (.int 7)), ("title", .enum "DESC")]
    let result : Json := .arr [.obj [("title", .str "DESC"), ("limit", .num (.int 10)),
      ("ids", .arr [.str "7"]), ("next", .obj [("title", .str "ASC"), ("limit", .num (.int 10))])]]
    coerce orderSchema written (.list (.named "Order" false) true) = .ok result ∧
      coerce orderSchema (.ofJson result) (.list (.named "Order" false) true) = .ok result := by
  intro written result
  have h : coerce orderSchema written (.list (.named "Order" false) true) = .ok result := by cbv
  exact ⟨h, coerce_idempotent inputsDistinct_order defaultsFixed_order h⟩

end GraphGate.Sample
