import GraphGate.Path
import Mathlib.Data.List.Induction
import GraphGate.Plan.Basic

/-! The places of a response: what is declared at a path, and what stands there. -/
namespace GraphGate

variable {ρ : Type}

namespace Json

/-- What stands in a value at a segment. -/
def child? : Json → Segment → Option Json
  | .obj fields, .field key => Table.get? key fields
  | .arr elements, .index n => elements[n]?
  | _, _ => none

/-- What stands in a value at a path. -/
def at? : Json → Path → Option Json
  | v, [] => some v
  | v, s :: p => (v.child? s).bind (·.at? p)

end Json

/-- A place of a response: its type, and what is selected on objects there. -/
structure Slot where
  type : TypeRef
  nodes : List FieldNode

namespace Slot

/-- The place of a selected field; the name of a type is a text. -/
def ofNode? (container : ObjectType ρ) (node : FieldNode) : Option Slot :=
  if node.name = Plan.typename then some ⟨.named "String" false, []⟩
  else (container.field? node.name).map fun definition => ⟨definition.type, node.children⟩

/-- The place under a key of an object. -/
def ofKey? (container : ObjectType ρ) (key : String) : List FieldNode → Option Slot
  | [] => none
  | node :: rest =>
    if node.outputName = key then ofNode? container node else ofKey? container key rest

/-- The place below another one: an element of a list, or a selected field of an object. -/
def step (schema : Schema ρ) : Slot → Segment → Option Slot
  | ⟨.list element _, nodes⟩, .index _ => some ⟨element, nodes⟩
  | ⟨.named name _, nodes⟩, .field key =>
    (schema.object? name).bind fun container => ofKey? container key nodes
  | _, _ => none

/-- The place at a path, if one is declared there. -/
def at? (schema : Schema ρ) : Slot → Path → Option Slot
  | slot, [] => some slot
  | slot, s :: p => (slot.step schema s).bind (·.at? schema p)

theorem at?_concat {schema : Schema ρ} {slot : Slot} {p : Path} {s : Segment} :
    slot.at? schema (p ++ [s]) = (slot.at? schema p).bind (·.step schema s) := by
  induction p generalizing slot with
  | nil =>
    rw [List.nil_append, at?, at?, Option.bind_some]
    cases slot.step schema s <;> rfl
  | cons s' p ih =>
    rw [List.cons_append, at?, at?, Option.bind_assoc]
    congr 1
    funext place
    exact ih

/-- The place of the whole data, which may be null. -/
def ofPlan (plan : Plan) : Slot := ⟨.named plan.root true, plan.fields⟩

/-- The longest part of a path at which null may stand. -/
structure Nearest (schema : Schema ρ) (slot : Slot) (p q : Path) : Prop where
  before : q <+: p
  nullable : ∃ place, slot.at? schema q = some place ∧ place.type.nullable = true
  longest : ∀ r place, r <+: p → slot.at? schema r = some place →
    place.type.nullable = true → r <+: q

theorem exists_nearest {schema : Schema ρ} {slot : Slot} (hn : slot.type.nullable = true)
    (p : Path) : ∃ q, slot.Nearest schema p q := by
  induction p using List.reverseRecOn with
  | nil =>
    refine ⟨[], List.prefix_refl [], ⟨slot, rfl, hn⟩, ?_⟩
    intro r _ hr _ _
    exact hr
  | append_singleton p s ih =>
    by_cases hs : ∃ place, slot.at? schema (p ++ [s]) = some place ∧ place.type.nullable = true
    · exact ⟨p ++ [s], List.prefix_refl _, hs, fun r _ hr _ _ => hr⟩
    · obtain ⟨q, hq⟩ := ih
      refine ⟨q, hq.before.trans (List.prefix_append p [s]), hq.nullable, ?_⟩
      intro r place hr hp hnull
      rcases List.prefix_concat_iff.mp hr with rfl | hr
      · exact absurd ⟨place, hp, hnull⟩ hs
      · exact hq.longest r place hr hp hnull

end Slot

end GraphGate
