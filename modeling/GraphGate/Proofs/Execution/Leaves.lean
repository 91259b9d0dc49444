import GraphGate.Execution.Completion
import GraphGate.Proofs.Plan.WellFormed
import GraphGate.Proofs.Schema
import GraphGate.Schema.Build

/-! Values at scalars and enums: what may go in may come out, and both ways leave it in one form. -/
namespace GraphGate

open Query

variable {ρ : Type} {schema : Schema ρ}

/-- Scalars and enums, whose values are not looked into. -/
def TypeDefinition.isLeaf : TypeDefinition ρ → Bool
  | .scalar _ | .enum .. => true
  | .input .. | .object _ => false

/-- A JSON value that is good at a scalar or an enum, and the form in which it is left there. -/
inductive Admits : TypeDefinition ρ → Json → Json → Prop
  | int {n : Int} (hn : Coercion.isInt32 n = true) :
    Admits (.scalar "Int") (.num (.int n)) (.num (.int n))
  | float {n : Number} : Admits (.scalar "Float") (.num n) (.num n)
  | string {s : String} : Admits (.scalar "String") (.str s) (.str s)
  | idText {s : String} : Admits (.scalar "ID") (.str s) (.str s)
  | idNumber {n : Int} : Admits (.scalar "ID") (.num (.int n)) (.str (toString n))
  | boolean {b : Bool} : Admits (.scalar "Boolean") (.bool b) (.bool b)
  | custom {name : String} {v : Json} (hn : name ∉ Schema.builtinScalars) :
    Admits (.scalar name) v v
  | enum {name s : String} {values : List String} (hs : values.contains s = true) :
    Admits (.enum name values) (.str s) (.str s)

namespace Coercion

/-- The coercion of a value that is not null at a scalar or an enum. -/
def leaf (definition : TypeDefinition ρ) (v : Constant) : Except Mismatch Json :=
  match definition with
  | .scalar name => scalar name v
  | .enum name values => enum name values v
  | .input name _ => .error ⟨name, v.describe⟩
  | .object type => .error ⟨type.name, v.describe⟩

theorem atName_of_leaf {name : String} {definition : TypeDefinition ρ} {v : Constant}
    (supplied : Table Supplied) (ht : schema.find? name = some definition)
    (hl : definition.isLeaf = true) : atName schema v supplied name = leaf definition v := by
  have hname := name_of_find? ht
  unfold atName
  rw [ht]
  cases definition with
  | scalar name' => exact hname ▸ rfl
  | enum name' values => exact hname ▸ rfl
  | input name' fields => cases hl
  | object type => cases hl

theorem coerce_named_of_leaf {name : String} {nullable : Bool} {definition : TypeDefinition ρ}
    {v : Constant} (ht : schema.find? name = some definition) (hl : definition.isLeaf = true)
    (hv : v ≠ .null) : coerce schema v (.named name nullable) = leaf definition v := by
  rw [coerce_named hv, atName_of_leaf _ ht hl]

end Coercion

namespace Execution

variable {definition : TypeDefinition ρ} {v w : Json}

theorem admits_of_leaf? (h : leaf? definition v = some w) : Admits definition v w := by
  unfold leaf? at h
  split at h
  · split at h
    · split at h
      · next hn =>
        cases h
        exact .int hn
      · cases h
    · cases h
  · split at h
    · cases h
      exact .float
    · cases h
  · split at h
    · cases h
      exact .string
    · cases h
  · split at h
    · cases h
      exact .idText
    · cases h
      exact .idNumber
    · cases h
  · split at h
    · cases h
      exact .boolean
    · cases h
  · cases h
    exact .custom (by simp_all [Schema.builtinScalars])
  · split at h
    · split at h
      · next hs =>
        cases h
        exact .enum hs
      · cases h
    · cases h
  · cases h
  · cases h

theorem leaf?_of_admits (h : Admits definition v w) : leaf? definition v = some w := by
  cases h with
  | int hn => exact if_pos hn
  | custom hn =>
    simp only [Schema.builtinScalars, List.mem_cons, not_or] at hn
    simp [leaf?, hn]
  | enum hs => exact if_pos hs
  | _ => rfl

end Execution

namespace Coercion

variable {definition : TypeDefinition ρ} {v w : Json}

theorem leaf_of_admits (h : Admits definition v w) : leaf definition (.ofJson v) = .ok w := by
  cases h with
  | int hn => exact if_pos hn
  | custom hn =>
    simp only [Schema.builtinScalars, List.mem_cons, not_or] at hn
    simp [leaf, scalar, hn, Constant.toJson_ofJson]
  | enum hs => exact if_pos hs
  | _ => rfl

theorem admits_of_scalar {name : String} {c : Constant} (h : scalar name c = .ok w) :
    Admits (.scalar name : TypeDefinition ρ) c.toJson w := by
  cases scalar_iff.mp h with
  | int hl hu => exact .int (isInt32_iff.mpr ⟨hl, hu⟩)
  | float => exact .float
  | string => exact .string
  | idText => exact .idText
  | idNumber => exact .idNumber
  | boolean => exact .boolean
  | custom hn => exact .custom hn

theorem admits_of_enum {name : String} {values : List String} {c : Constant}
    (h : enum name values c = .ok w) :
    Admits (.enum name values : TypeDefinition ρ) c.toJson w := by
  cases enum_iff.mp h with
  | bare hm => exact .enum (by simpa using hm)
  | text hm => exact .enum (by simpa using hm)

theorem admits_of_leaf {c : Constant} (h : leaf definition c = .ok w) :
    Admits definition c.toJson w := by
  cases definition with
  | scalar name => exact admits_of_scalar h
  | enum name values => exact admits_of_enum h
  | input name fields => cases h
  | object type => cases h

end Coercion

namespace Execution

/-- Values of a scalar are left as they are. -/
theorem admits_of_scalarHolds {name : String} {v : Json} (hs : ScalarHolds name v) :
    Admits (.scalar name : TypeDefinition ρ) v v := by
  unfold ScalarHolds at hs
  split at hs
  · obtain ⟨n, rfl, hn⟩ := hs
    exact .int (Coercion.isInt32_iff.mpr hn)
  · obtain ⟨n, rfl⟩ := hs
    exact .float
  · obtain ⟨s, rfl⟩ := hs
    exact .string
  · obtain ⟨s, rfl⟩ := hs
    exact .idText
  · obtain ⟨b, rfl⟩ := hs
    exact .boolean
  · exact .custom (by simp_all [Schema.builtinScalars])

variable {node : FieldNode}
  {object : ObjectType ρ → Json → Path → Dialogue ρ (Completion Json)}

theorem completeElements_of_fixed {element : Json → Path → Dialogue ρ (Completion Json)}
    {path : Path} {elements : List Json}
    (he : ∀ v ∈ elements, ∀ path, element v path = .done (.ok v)) :
    ∀ index, completeElements element path index elements = .done (.ok elements) := by
  induction elements with
  | nil => exact fun _ => rfl
  | cons v rest ih =>
    intro index
    have hfirst := he v (by simp) (path ++ [.index index])
    have hrest := ih (fun v hv => he v (by simp [hv])) (index + 1)
    rw [completeElements, hfirst]
    change (completeElements element path (index + 1) rest >>= _) = _
    rw [hrest]
    rfl

theorem complete_null {type : TypeRef} (hn : type.nullable = true) (path : Path) :
    complete schema node object type .null path = .done (.ok .null) := by
  rw [complete, if_pos hn]
  rfl

theorem complete_of_admits {name : String} {nullable : Bool} {definition : TypeDefinition ρ}
    (ht : schema.find? name = some definition) (hl : definition.isLeaf = true) {v w : Json}
    (hv : v ≠ .null) (ha : Admits definition v w) (path : Path) :
    complete schema node object (.named name nullable) v path = .done (.ok w) := by
  have hw := leaf?_of_admits ha
  rw [complete, ht]
  · cases definition with
    | scalar name' => simp only [hw]; rfl
    | enum name' values => simp only [hw]; rfl
    | input name' fields => cases hl
    | object type => cases hl
  · exact hv

/-- A value that belongs to a type of leaves is completed as it is, and nothing is reported. -/
theorem complete_of_inhabits {type : TypeRef} {definition : TypeDefinition ρ}
    (ht : schema.find? type.innermost = some definition) (hl : definition.isLeaf = true)
    {v : Json} (hv : Inhabits schema type v) (path : Path) :
    complete schema node object type v path = .done (.ok v) := by
  induction type generalizing v path with
  | named name nullable =>
    rw [TypeRef.innermost] at ht
    cases hv with
    | null hn => exact complete_null hn path
    | @scalar _ name' _ _ ht' hn hs =>
      have hname : name' = name := name_of_find? ht'
      rw [ht, Option.some.injEq] at ht'
      subst ht' hname
      exact complete_of_admits ht hl hn (admits_of_scalarHolds hs) path
    | enum ht' hs =>
      rw [ht, Option.some.injEq] at ht'
      subst ht'
      exact complete_of_admits ht hl (by simp) (.enum (by simpa using hs)) path
    | input ht' _ =>
      rw [ht, Option.some.injEq] at ht'
      subst ht'
      cases hl
  | list element nullable ih =>
    cases hv with
    | null hn => exact complete_null hn path
    | list he =>
      have helements : completeElements (complete schema node object element) path 0 _ = _ :=
        completeElements_of_fixed (fun v hv => ih ht (he v hv)) 0
      rw [complete, helements]
      rfl

/-- What input coercion makes of a value at a type of leaves is completed as it is; and at a named
type it takes the same JSON values as completion does and leaves them in the same form. -/
theorem coerce_agrees_with_complete (schema : Schema ρ) :
    (∀ (type : TypeRef) (definition : TypeDefinition ρ),
      schema.find? type.innermost = some definition → definition.isLeaf = true →
      ∀ (v : Constant) (w : Json), Coercion.coerce schema v type = .ok w →
      ∀ node object path, complete schema node object type w path = .done (.ok w)) ∧
    ∀ (name : String) (definition : TypeDefinition ρ),
      schema.find? name = some definition → definition.isLeaf = true →
      ∀ v : Json, v ≠ .null → ∀ w : Json, leaf? definition v = some w ↔
        Coercion.coerce schema (.ofJson v) (.named name true) = .ok w := by
  constructor
  · intro type definition ht hl v w hw node object path
    have hinhabits := Coercion.sound_coerce v type w hw
    exact complete_of_inhabits ht hl hinhabits path
  · intro name definition ht hl v hv w
    rw [Coercion.coerce_named_of_leaf ht hl (Constant.ofJson_ne_null hv)]
    constructor
    · intro hw
      exact Coercion.leaf_of_admits (admits_of_leaf? hw)
    · intro hw
      have hadmits := Coercion.admits_of_leaf hw
      rw [Constant.toJson_ofJson] at hadmits
      exact leaf?_of_admits hadmits

end Execution

end GraphGate

namespace GraphGate.Sample

open Query Execution

theorem coerce_id : Coercion.coerce schema (.number (.int 7)) (.list (.named "ID" false) true) =
    .ok (.arr [.str "7"]) := by cbv

theorem coerce_agrees_with_complete_id :
    (∀ node object path, complete schema node object (.list (.named "ID" false) true)
      (.arr [.str "7"]) path = .done (.ok (.arr [.str "7"]))) ∧
    Coercion.coerce schema (.ofJson (.num (.int 7))) (.named "ID" true) = .ok (.str "7") :=
  have h := coerce_agrees_with_complete schema
  ⟨h.1 _ (.scalar "ID") rfl rfl _ _ coerce_id,
    (h.2 "ID" (.scalar "ID") rfl rfl (.num (.int 7)) (by simp) (.str "7")).mp (by cbv)⟩

end GraphGate.Sample
