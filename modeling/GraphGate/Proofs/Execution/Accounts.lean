import GraphGate.Proofs.Execution.Conformance
import GraphGate.Proofs.Execution.Slot

/-! Errors and nulls answer for each other: an error leaves null at the nearest place above it that
may be null, and null stands nowhere else but where it was delivered. -/
namespace GraphGate.Execution

variable {ρ α β : Type} {given : Path → Prop} {path : Path}

/-- All places on the way down from `q` along `p` are declared and may not be null. -/
def Firm (shape : Path → Option Slot) (q p : Path) : Prop :=
  ∀ r, r <+: p → r ≠ [] → ∃ slot, shape (q ++ r) = some slot ∧ slot.type.nullable = false

/-- How the errors of a completion and the nulls in its value answer for each other. `shape` tells
the places below `path`, `look` what stands there, `given` where null was delivered. -/
structure Accounts (given : Path → Prop) (path : Path) (shape : Path → Option Slot)
    (look : α → Path → Option Json) (c : Completion α) : Prop where
  /-- An error lies at a place, and there or above it stands null, if there is a value. -/
  located : ∀ e ∈ c.errors, ∃ p, e.path = some (path ++ p) ∧ (shape p).isSome ∧
    ∀ a, c.value = some a →
      ∃ r slot, r <+: p ∧ shape r = some slot ∧ slot.type.nullable = true ∧ look a r = some .null
  /-- A value is missing because of an error with nothing on the way up that may be null. -/
  missing : c.value = none → ∃ e ∈ c.errors, ∃ p, e.path = some (path ++ p) ∧ Firm shape [] p
  /-- Null was delivered, or stands for an error with nothing on the way up that may be null. -/
  explained : ∀ a, c.value = some a → ∀ q, (shape q).isSome → look a q = some .null →
    given (path ++ q) ∨
      ∃ e ∈ c.errors, ∃ p, e.path = some (path ++ q ++ p) ∧ Firm shape q p

/-- The completion of a place: one without a value may not be null. -/
structure Accounted (schema : Schema ρ) (given : Path → Prop) (path : Path) (slot : Slot)
    (c : Completion Json) : Prop extends
    Accounts given path (slot.at? schema) Json.at? c where
  propagates : c.value = none → slot.type.nullable = false

theorem Firm.mono {shape shape' : Path → Option Slot} {q p : Path} (h : Firm shape q p)
    (hs : ∀ r slot, shape r = some slot → shape' r = some slot) : Firm shape' q p := by
  intro r hr hn
  obtain ⟨slot, hslot, hnull⟩ := h r hr hn
  exact ⟨slot, hs _ _ hslot, hnull⟩

theorem firm_cons {shape : Path → Option Slot} {s : Segment} {p : Path} {slot : Slot}
    (hs : shape [s] = some slot) (hn : slot.type.nullable = false)
    (h : Firm (fun r => shape (s :: r)) [] p) : Firm shape [] (s :: p) := by
  intro r hr hne
  obtain ⟨s', r, rfl⟩ := List.exists_cons_of_ne_nil hne
  obtain ⟨rfl, hp⟩ := List.cons_prefix_cons.mp hr
  by_cases hr' : r = []
  · subst hr'
    exact ⟨slot, hs, hn⟩
  · exact h r hp hr'

/-- What is found at `s` and, apart from it, in the rest. -/
def splice {X : Type} (s : Segment) (first rest : Path → Option X) : Path → Option X
  | [] => none
  | s' :: p => if s' = s then first p else rest (s' :: p)

section

variable {X : Type} {s : Segment} {first rest : Path → Option X} {p : Path}

theorem splice_same : splice s first rest (s :: p) = first p := if_pos rfl

theorem splice_apart {s' : Segment} (h : s' ≠ s) :
    splice s first rest (s' :: p) = rest (s' :: p) := if_neg h

/-- Nothing is found where a part stands, and not at the whole. -/
def Apart (s : Segment) (rest : Path → Option X) : Prop :=
  rest [] = none ∧ ∀ p, rest (s :: p) = none

theorem exists_of_apart {x : X} (ha : Apart s rest) (h : rest p = some x) :
    ∃ s' p', p = s' :: p' ∧ s' ≠ s := by
  cases p with
  | nil =>
    rw [ha.1] at h
    cases h
  | cons s' p =>
    refine ⟨s', p, rfl, ?_⟩
    intro he
    rw [he, ha.2] at h
    cases h

theorem splice_of_rest {x : X} (ha : Apart s rest) (h : rest p = some x) :
    splice s first rest p = some x := by
  obtain ⟨s', p', rfl, hs⟩ := exists_of_apart ha h
  rw [splice_apart hs, h]

end

/-- Where there are neither errors nor nulls, there is nothing to answer for. -/
theorem accounts_ok {shape : Path → Option Slot} {look : α → Path → Option Json} {a : α}
    (hl : ∀ p, (shape p).isSome → look a p ≠ some .null) :
    Accounts given path shape look (.ok a) where
  located := by
    intro e he
    cases he
  missing := by
    intro h
    cases h
  explained := by
    intro a' ha q hq hnull
    cases ha
    exact absurd hnull (hl q hq)

section

variable {schema : Schema ρ} {s : Segment} {slot : Slot} {rest : Path → Option Slot}
  {look : α → Path → Option Json} {look' : β → Path → Option Json} {f : Json → α → β}
  {c : Completion Json} {c' : Completion α}

/-- The first part of an object or a list beside the others. -/
theorem accounts_both (h : Accounted schema given (path ++ [s]) slot c)
    (h' : Accounts given path rest look c') (ha : Apart s rest)
    (hl : ∀ v a p, look' (f v a) p = splice s v.at? (look a) p) :
    Accounts given path (splice s (slot.at? schema) rest) look' (.both f c c') where
  located := by
    intro e he
    rcases List.mem_append.mp he with he | he
    · obtain ⟨p, hp, hd, hv⟩ := h.located e he
      refine ⟨s :: p, by simpa using hp, by rwa [splice_same], ?_⟩
      intro b hb
      obtain ⟨v, a, hv', -, rfl⟩ := exists_of_both hb
      obtain ⟨r, place, hr, hplace, hnull, hlook⟩ := hv v hv'
      refine ⟨s :: r, place, by simpa using hr, by rwa [splice_same], hnull, ?_⟩
      rwa [hl, splice_same]
    · obtain ⟨p, hp, hd, hv⟩ := h'.located e he
      obtain ⟨place, hplace⟩ := Option.isSome_iff_exists.mp hd
      refine ⟨p, hp, by rw [splice_of_rest ha hplace]; rfl, ?_⟩
      intro b hb
      obtain ⟨v, a, -, ha', rfl⟩ := exists_of_both hb
      obtain ⟨r, place, hr, hplace, hnull, hlook⟩ := hv a ha'
      refine ⟨r, place, hr, splice_of_rest ha hplace, hnull, ?_⟩
      obtain ⟨s', r', rfl, hs⟩ := exists_of_apart ha hplace
      rwa [hl, splice_apart hs]
  missing := by
    intro hm
    cases hc : c.value with
    | none =>
      obtain ⟨e, he, p, hp, hf⟩ := h.missing hc
      refine ⟨e, by simp [Completion.both, he], s :: p, by simpa using hp, ?_⟩
      have hs : splice s (slot.at? schema) rest [s] = some slot := splice_same
      refine firm_cons hs (h.propagates hc) ?_
      simpa only [splice_same] using hf
    | some v =>
      have hc' : c'.value = none := by simpa [Completion.both, hc] using hm
      obtain ⟨e, he, p, hp, hf⟩ := h'.missing hc'
      exact ⟨e, by simp [Completion.both, he], p, hp, hf.mono fun _ _ => splice_of_rest ha⟩
  explained := by
    intro b hb q hq hnull
    obtain ⟨v, a, hv, ha', rfl⟩ := exists_of_both hb
    rw [hl] at hnull
    cases q with
    | nil => cases hq
    | cons s' q =>
      by_cases hs : s' = s
      · subst hs
        rw [splice_same] at hq hnull
        rcases h.explained v hv q hq hnull with hg | ⟨e, he, p, hp, hf⟩
        · exact .inl (by simpa using hg)
        · refine .inr ⟨e, by simp [Completion.both, he], p, by simpa using hp, ?_⟩
          intro r hr hn
          rw [List.cons_append, splice_same]
          exact hf r hr hn
      · rw [splice_apart hs] at hq hnull
        rcases h'.explained a ha' (s' :: q) hq hnull with hg | ⟨e, he, p, hp, hf⟩
        · exact .inl hg
        · exact .inr ⟨e, by simp [Completion.both, he], p, hp,
            hf.mono fun _ _ => splice_of_rest ha⟩

end

section

variable {schema : Schema ρ} {slot : Slot}

/-- Where a value is missing, the place takes null if it may. -/
theorem accounted_of_missing {errors : List ResponseError}
    (hl : ∀ e ∈ errors, ∃ p, e.path = some (path ++ p) ∧ (slot.at? schema p).isSome)
    (hm : ∃ e ∈ errors, ∃ p, e.path = some (path ++ p) ∧ Firm (slot.at? schema) [] p) :
    Accounted schema given path slot
      ((⟨none, errors⟩ : Completion Json).orNull slot.type.nullable) := by
  cases hn : slot.type.nullable with
  | true =>
    refine ⟨⟨?_, ?_, ?_⟩, ?_⟩
    · intro e he
      obtain ⟨p, hp, hd⟩ := hl e he
      refine ⟨p, hp, hd, ?_⟩
      intro v hv
      cases hv
      exact ⟨[], slot, List.nil_prefix, rfl, hn, rfl⟩
    · intro h
      cases h
    · intro v hv q _ hnull
      cases hv
      cases q with
      | nil =>
        obtain ⟨e, he, p, hp, hf⟩ := hm
        exact .inr ⟨e, he, p, by simpa using hp, hf⟩
      | cons s q => cases hnull
    · intro h
      cases h
  | false =>
    refine ⟨⟨?_, ?_, ?_⟩, ?_⟩
    · intro e he
      obtain ⟨p, hp, hd⟩ := hl e he
      refine ⟨p, hp, hd, ?_⟩
      intro v hv
      cases hv
    · intro _
      exact hm
    · intro v hv
      cases hv
    · intro _
      exact hn

/-- A value that cannot be completed, at its own place. -/
theorem accounted_failed {e : ResponseError} (he : e.path = some path) :
    Accounted schema given path slot ((Completion.failed e).orNull slot.type.nullable) := by
  apply accounted_of_missing
  · intro e' he'
    rw [List.mem_singleton.mp he']
    exact ⟨[], by simpa using he, rfl⟩
  · refine ⟨e, by simp, [], by simpa using he, ?_⟩
    intro r hr hn
    exact absurd (List.prefix_nil.mp hr) hn

/-- A value that is not null and has its parts where they are looked for. -/
theorem accounted_of_parts {shape : Path → Option Slot} {look : α → Path → Option Json} {a : α}
    {v : Json} {errors : List ResponseError} (h : Accounts given path shape look ⟨some a, errors⟩)
    (hn : shape [] = none) (hs : ∀ s p, slot.at? schema (s :: p) = shape (s :: p)) (hv : v ≠ .null)
    (hl : ∀ s p, v.at? (s :: p) = look a (s :: p)) :
    Accounted schema given path slot ⟨some v, errors⟩ := by
  have hshape : ∀ p place, shape p = some place → slot.at? schema p = some place := by
    intro p place hp
    cases p with
    | nil =>
      rw [hn] at hp
      cases hp
    | cons s p => rw [hs, hp]
  refine ⟨⟨?_, ?_, ?_⟩, ?_⟩
  · intro e he
    obtain ⟨p, hp, hd, hv⟩ := h.located e he
    obtain ⟨place, hplace⟩ := Option.isSome_iff_exists.mp hd
    refine ⟨p, hp, by rw [hshape _ _ hplace]; rfl, ?_⟩
    intro v' hv'
    cases hv'
    obtain ⟨r, place', hr, hplace', hnull, hlook⟩ := hv a rfl
    refine ⟨r, place', hr, hshape _ _ hplace', hnull, ?_⟩
    cases r with
    | nil =>
      rw [hn] at hplace'
      cases hplace'
    | cons s r => rw [hl, hlook]
  · intro h
    cases h
  · intro v' hv' q hq hnull
    cases hv'
    cases q with
    | nil => exact absurd (Option.some.inj hnull) hv
    | cons s q =>
      rw [hs] at hq
      rw [hl] at hnull
      rcases h.explained a rfl (s :: q) hq hnull with hg | ⟨e, he, p, hp, hf⟩
      · exact .inl hg
      · exact .inr ⟨e, he, p, hp, hf.mono hshape⟩
  · intro h
    cases h

/-- A place takes the parts that were completed, or null for them if it may. -/
theorem accounted_orNull {shape : Path → Option Slot} {look : α → Path → Option Json}
    {f : α → Json} {c : Completion α} (h : Accounts given path shape look c) (hn : shape [] = none)
    (hs : ∀ s p, slot.at? schema (s :: p) = shape (s :: p))
    (hf : ∀ a, c.value = some a → f a ≠ .null ∧ ∀ s p, (f a).at? (s :: p) = look a (s :: p)) :
    Accounted schema given path slot ((c.map f).orNull slot.type.nullable) := by
  obtain ⟨value, errors⟩ := c
  cases value with
  | some a =>
    obtain ⟨hv, hl⟩ := hf a rfl
    exact accounted_of_parts h hn hs hv hl
  | none =>
    apply accounted_of_missing
    · intro e he
      obtain ⟨p, hp, hd, -⟩ := h.located e he
      cases p with
      | nil =>
        rw [hn] at hd
        cases hd
      | cons s p => exact ⟨s :: p, hp, by rwa [hs]⟩
    · obtain ⟨e, he, p, hp, hf⟩ := h.missing rfl
      refine ⟨e, he, p, hp, ?_⟩
      intro r hr hne
      obtain ⟨place, hplace, hnull⟩ := hf r hr hne
      obtain ⟨s, r, rfl⟩ := List.exists_cons_of_ne_nil hne
      exact ⟨place, by rw [List.nil_append, hs]; exact hplace, hnull⟩

end

/-- The places below an object, and the values there. -/
def fieldShape (schema : Schema ρ) (container : ObjectType ρ) (nodes : List FieldNode) :
    Path → Option Slot
  | .field key :: p => (Slot.ofKey? container key nodes).bind (·.at? schema p)
  | _ => none

def fieldLook (pairs : Table Json) : Path → Option Json
  | .field key :: p => (pairs.get? key).bind (·.at? p)
  | _ => none

/-- The places of a list from an index on, and the values there. -/
def elementShape (schema : Schema ρ) (slot : Slot) (index : Nat) : Path → Option Slot
  | .index n :: p => if index ≤ n then slot.at? schema p else none
  | _ => none

def elementLook (index : Nat) (values : List Json) : Path → Option Json
  | .index n :: p => if index ≤ n then values[n - index]?.bind (·.at? p) else none
  | _ => none

section

variable {schema : Schema ρ} {slot : Slot} {container : ObjectType ρ} {node : FieldNode}
  {nodes : List FieldNode} {index : Nat}

theorem fieldShape_cons (h : Slot.ofNode? container node = some slot) :
    fieldShape schema container (node :: nodes) =
      splice (.field node.outputName) (slot.at? schema) (fieldShape schema container nodes) := by
  funext p
  match p with
  | [] => rfl
  | .index n :: p => rfl
  | .field key :: p =>
    by_cases hk : node.outputName = key
    · subst hk
      simp [splice_same, fieldShape, Slot.ofKey?, h]
    · have hs : Segment.field key ≠ .field node.outputName := by simpa using Ne.symm hk
      simp [splice_apart hs, fieldShape, Slot.ofKey?, hk]

theorem fieldLook_nil (p : Path) : fieldLook [] p = none := by
  match p with
  | [] => rfl
  | .field key :: p => rfl
  | .index n :: p => rfl

theorem fieldLook_cons {key : String} {v : Json} {pairs : Table Json} {p : Path} :
    fieldLook ((key, v) :: pairs) p = splice (.field key) v.at? (fieldLook pairs) p := by
  match p with
  | [] => rfl
  | .index n :: p => rfl
  | .field key' :: p =>
    by_cases hk : key = key'
    · subst hk
      simp [splice_same, fieldLook, Table.get?]
    · have hs : Segment.field key' ≠ .field key := by simpa using Ne.symm hk
      simp [splice_apart hs, fieldLook, Table.get?, hk]

theorem ofKey?_of_absent {key : String} (h : key ∉ outputNames nodes) :
    Slot.ofKey? container key nodes = none := by
  induction nodes with
  | nil => rfl
  | cons node nodes ih =>
    simp only [outputNames, List.map_cons, List.mem_cons, not_or] at h
    rw [Slot.ofKey?, if_neg (Ne.symm h.1), ih h.2]

theorem apart_fieldShape {key : String} (h : key ∉ outputNames nodes) :
    Apart (.field key) (fieldShape schema container nodes) := by
  refine ⟨rfl, ?_⟩
  intro p
  rw [fieldShape, ofKey?_of_absent h, Option.bind_none]

theorem elementShape_eq :
    elementShape schema slot index =
      splice (.index index) (slot.at? schema) (elementShape schema slot (index + 1)) := by
  funext p
  match p with
  | [] => rfl
  | .field key :: p => rfl
  | .index n :: p =>
    by_cases hn : n = index
    · subst hn
      simp [splice_same, elementShape]
    · have hs : Segment.index n ≠ .index index := by simpa using hn
      have hle : index ≤ n ↔ index + 1 ≤ n := by omega
      simp only [splice_apart hs, elementShape, hle]

theorem elementLook_nil (p : Path) : elementLook index [] p = none := by
  match p with
  | [] => rfl
  | .field key :: p => rfl
  | .index n :: p => simp [elementLook]

theorem elementLook_cons {v : Json} {values : List Json} {p : Path} :
    elementLook index (v :: values) p =
      splice (.index index) v.at? (elementLook (index + 1) values) p := by
  match p with
  | [] => rfl
  | .field key :: p => rfl
  | .index n :: p =>
    by_cases hn : n = index
    · subst hn
      simp [splice_same, elementLook]
    · have hs : Segment.index n ≠ .index index := by simpa using hn
      simp only [splice_apart hs, elementLook]
      by_cases hle : index ≤ n
      · have hsub : n - index = n - (index + 1) + 1 := by omega
        have hle' : index + 1 ≤ n := by omega
        rw [if_pos hle, if_pos hle', hsub, List.getElem?_cons_succ]
      · have hle' : ¬ index + 1 ≤ n := by omega
        rw [if_neg hle, if_neg hle']

theorem apart_elementShape :
    Apart (.index index) (elementShape schema slot (index + 1)) := by
  refine ⟨rfl, ?_⟩
  intro p
  have h : ¬ index + 1 ≤ index := by omega
  rw [elementShape, if_neg h]

end

end GraphGate.Execution
