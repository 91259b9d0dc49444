import GraphGate.Proofs.Execution.Scope
import GraphGate.Proofs.Execution.Slot
import GraphGate.Proofs.Table

/-! Values with null at a path, which tell what stands everywhere else. -/
namespace GraphGate

namespace Json

/-- The value with null in the place of what stands at a path. -/
def blank : Path → Json → Json
  | [], _ => .null
  | .field key :: p, .obj fields =>
    .obj (Table.mapValues (fun k v => if k = key then blank p v else v) fields)
  | .index n :: p, .arr elements =>
    .arr (elements.mapIdx fun i v => if i = n then blank p v else v)
  | _ :: _, v => v

theorem blank_null {p : Path} : blank p .null = .null := by
  match p with
  | [] => rfl
  | .field _ :: _ => rfl
  | .index _ :: _ => rfl

/-- Only what stands under the first segment of the path is changed. -/
theorem child?_blank {s s' : Segment} {p : Path} {v : Json} :
    (v.blank (s :: p)).child? s' = if s' = s then (v.child? s').map (blank p) else v.child? s' := by
  cases s with
  | field key =>
    cases v with
    | obj fields =>
      cases s' with
      | field k =>
        rw [blank, child?, child?, Table.get?_mapValues]
        by_cases hk : k = key
        · simp [hk]
        · simp [hk]
      | index n => rfl
    | _ => cases s' <;> simp [blank, child?]
  | index n =>
    cases v with
    | arr elements =>
      cases s' with
      | field k => rfl
      | index i =>
        rw [blank, child?, child?, List.getElem?_mapIdx]
        by_cases hi : i = n
        · simp [hi]
        · simp [hi]
    | _ => cases s' <;> simp [blank, child?]

theorem at?_blank {p q : Path} {v : Json} (hp : ¬ p <+: q) (hq : ¬ q <+: p) :
    (v.blank p).at? q = v.at? q := by
  induction p generalizing v q with
  | nil => exact absurd List.nil_prefix hp
  | cons s p ih =>
    cases q with
    | nil => exact absurd List.nil_prefix hq
    | cons s' q =>
      rw [at?, at?, child?_blank]
      by_cases hs : s' = s
      · subst hs
        rw [if_pos rfl, Option.bind_map]
        have hp' : ¬ p <+: q := fun h => hp (List.cons_prefix_cons.mpr ⟨rfl, h⟩)
        have hq' : ¬ q <+: p := fun h => hq (List.cons_prefix_cons.mpr ⟨rfl, h⟩)
        congr 1
        funext w
        exact ih hp' hq'
      · rw [if_neg hs]

/-- The value of a place, blank at `p` if that is there or below. -/
def hide (p place : Path) (v : Json) : Json :=
  if place <+: p then v.blank (p.drop place.length) else v

variable {p place r : Path} {s s' : Segment} {v : Json}

theorem hide_append : hide (place ++ r) place v = v.blank r := by
  rw [hide, if_pos (List.prefix_append place r), List.drop_left]

theorem hide_nil : hide p [] v = v.blank p := by
  rw [hide, if_pos List.nil_prefix, List.length_nil, List.drop_zero]

theorem hide_self : hide p p v = .null := by
  rw [hide, if_pos (List.prefix_refl p), List.drop_length, blank]

theorem hide_of_apart (h : ¬ place <+: p) : hide p place v = v := if_neg h

/-- One step further down. -/
theorem hide_concat :
    hide (place ++ s :: r) (place ++ [s']) v = if s' = s then v.blank r else v := by
  by_cases hs : s' = s
  · subst hs
    rw [if_pos rfl, List.append_cons, hide_append]
  · rw [if_neg hs]
    apply hide_of_apart
    intro h
    have hr : place ++ [s] <+: place ++ s :: r := ⟨r, (List.append_cons place s r).symm⟩
    exact hs (Execution.segment_unique h hr)

theorem not_prefix_concat (h : ¬ place <+: p) : ¬ place ++ [s] <+: p :=
  fun h' => h ((List.prefix_append place [s]).trans h')

theorem mapIdx_self {elements : List Json} : elements.mapIdx (fun _ v => v) = elements := by
  apply List.ext_getElem?
  intro n
  rw [List.getElem?_mapIdx, Option.map_id']

theorem hide_obj {fields : List (String × Json)} (h : ¬ p <+: place) :
    hide p place (.obj fields) =
      .obj (Table.mapValues (fun k v => hide p (place ++ [.field k]) v) fields) := by
  by_cases hp : place <+: p
  · obtain ⟨r, rfl⟩ := hp
    cases r with
    | nil => exact absurd (by rw [List.append_nil]) h
    | cons s r =>
      simp only [hide_append, hide_concat]
      cases s with
      | field key => simp [blank]
      | index n => simp [blank, Table.mapValues]
  · rw [hide_of_apart hp]
    simp [hide_of_apart (not_prefix_concat hp), Table.mapValues]

theorem hide_arr {elements : List Json} (h : ¬ p <+: place) :
    hide p place (.arr elements) =
      .arr (elements.mapIdx fun n v => hide p (place ++ [.index n]) v) := by
  by_cases hp : place <+: p
  · obtain ⟨r, rfl⟩ := hp
    cases r with
    | nil => exact absurd (by rw [List.append_nil]) h
    | cons s r =>
      simp only [hide_append, hide_concat]
      cases s with
      | field key => simp [blank, mapIdx_self]
      | index n => simp [blank]
  · rw [hide_of_apart hp]
    simp [hide_of_apart (not_prefix_concat hp), mapIdx_self]

end Json

end GraphGate
