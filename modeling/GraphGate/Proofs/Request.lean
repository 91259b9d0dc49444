import GraphGate.Proofs.Table
import GraphGate.Request.Basic
import Mathlib.Data.List.Forall2

/-! The entries of a request: each takes what its element lacks from the last element before it that
has it, and from the parameters if there is none. -/
namespace GraphGate

namespace Request

variable {α : Type}

/-- The JSON value in the body of a request. A raw query is none. -/
def payload? (request : Request) : Option Json :=
  match request.body with
  | none | some [] => none
  | some body => if isRawQuery request.contentType then none else bodyValue? body

def string? (key : String) (element : Json) : Option String :=
  (element.get? key).bind Json.string?

/-- What is read in the last of some elements in which there is anything to read. -/
def latest (read : Json → Option α) (elements : List Json) : Option α :=
  (elements.filterMap read).getLast?

/-- The entry that an element makes after others. -/
def entryAfter (request : Request) (before : List Json) (element : Json) : Entry where
  query := (latest (string? "query") (before ++ [element])).or request.query
  operationName := (string? "operationName" element).or request.operationName
  bindings := (latest elementVariables? (before ++ [element])).getD
    (parameterVariables request.variablesParameter)

/-- Requests that differ at most in their bodies. -/
structure SameParameters (request request' : Request) : Prop where
  query : request'.query = request.query
  operationName : request'.operationName = request.operationName
  variablesParameter : request'.variablesParameter = request.variablesParameter

/-- A value that says nothing under its key. -/
inductive Mistyped : String → Json → Prop
  | query {v : Json} (hv : v.string? = none) : Mistyped "query" v
  | operationName {v : Json} (hv : v.string? = none) : Mistyped "operationName" v
  | bindings {v : Json} (ho : ∀ fields, v ≠ .obj fields)
    (hs : ∀ text, v = .str text → decodeObject? text = none) : Mistyped "variables" v

/-- One payload has a mistyped value where the other has none. -/
inductive Loses : Json → Json → Prop
  | object {fields : Table Json} {key : String} {v : Json} (hk : fields.get? key = some v)
    (hv : Mistyped key v) : Loses (.obj fields) (.obj (fields.without key))
  | element {before rest : List Json} {fields : Table Json} {key : String} {v : Json}
    (hk : fields.get? key = some v) (hv : Mistyped key v) :
    Loses (.arr (before ++ .obj fields :: rest))
      (.arr (before ++ .obj (fields.without key) :: rest))

theorem latest_cons {read : Json → Option α} {element : Json} {rest : List Json} :
    latest read (element :: rest) = (latest read rest).or (read element) := by
  unfold latest
  rw [List.filterMap_cons]
  cases read element with
  | none => rw [Option.or_none]
  | some a =>
    rw [List.getLast?_cons]
    cases (List.filterMap read rest).getLast? <;> rfl

theorem latest_singleton {read : Json → Option α} {element : Json} :
    latest read [element] = read element := by
  rw [latest_cons]
  rfl

variable {operationName query : Option String} {bindings : Table Json} {elements : List Json}

theorem length_elementEntries :
    (elementEntries operationName query bindings elements).length = elements.length := by
  induction elements generalizing query bindings with
  | nil => rfl
  | cons element rest ih => simp [elementEntries, ih]

/-- What is carried on from one element to the next is what was read last. -/
theorem getElem?_elementEntries {i : Nat} :
    (elementEntries operationName query bindings elements)[i]? = elements[i]?.map fun element =>
      ⟨(latest (string? "query") (elements.take i ++ [element])).or query,
        (string? "operationName" element).or operationName,
        (latest elementVariables? (elements.take i ++ [element])).getD bindings⟩ := by
  induction elements generalizing query bindings i with
  | nil => rfl
  | cons first rest ih =>
    cases i with
    | zero =>
      rw [List.getElem?_cons_zero, Option.map_some, List.take_zero, List.nil_append,
        latest_singleton, latest_singleton]
      rfl
    | succ i =>
      simp only [List.getElem?_cons_succ, List.take_succ_cons, List.cons_append, latest_cons,
        Option.or_assoc, Option.getD_or]
      exact ih

/-- Elements in which the same is read under the keys that matter. -/
structure Alike (element element' : Json) : Prop where
  query : string? "query" element' = string? "query" element
  operationName : string? "operationName" element' = string? "operationName" element
  bindings : elementVariables? element' = elementVariables? element

theorem alike_refl (elements : List Json) : List.Forall₂ Alike elements elements :=
  List.forall₂_same.mpr fun _ _ => ⟨rfl, rfl, rfl⟩

theorem elementEntries_of_alike {elements' : List Json}
    (h : List.Forall₂ Alike elements elements') :
    elementEntries operationName query bindings elements' =
      elementEntries operationName query bindings elements := by
  induction h generalizing query bindings with
  | nil => rfl
  | @cons element element' rest rest' ha _ ih =>
    have hquery : (element'.get? "query").bind Json.string? = _ := ha.query
    have hname : (element'.get? "operationName").bind Json.string? = _ := ha.operationName
    rw [elementEntries, hquery, hname, ha.bindings, ih]
    rfl

theorem string?_without {name key : String} {fields : Table Json} (h : name ≠ key) :
    string? name (.obj (fields.without key)) = string? name (.obj fields) := by
  rw [string?, string?, Json.get?, Json.get?, Table.get?_without, if_neg h]

theorem elementVariables?_without {key : String} {fields : Table Json} (h : "variables" ≠ key) :
    elementVariables? (.obj (fields.without key)) = elementVariables? (.obj fields) := by
  rw [elementVariables?, elementVariables?, Json.get?, Json.get?, Table.get?_without, if_neg h]

/-- A mistyped value is not read, as if it was not there; and the other keys keep theirs. -/
theorem alike_without {fields : Table Json} {key : String} {v : Json}
    (hk : fields.get? key = some v) (hv : Mistyped key v) :
    Alike (.obj fields) (.obj (fields.without key)) := by
  have habsent : (fields.without key).get? key = none := by
    rw [Table.get?_without, if_pos rfl]
  cases hv with
  | query hv =>
    refine ⟨?_, string?_without (by decide), elementVariables?_without (by decide)⟩
    rw [string?, string?, Json.get?, Json.get?, habsent, hk]
    exact hv.symm
  | operationName hv =>
    refine ⟨string?_without (by decide), ?_, elementVariables?_without (by decide)⟩
    rw [string?, string?, Json.get?, Json.get?, habsent, hk]
    exact hv.symm
  | bindings ho hs =>
    refine ⟨string?_without (by decide), string?_without (by decide), ?_⟩
    rw [elementVariables?, elementVariables?, Json.get?, Json.get?, habsent, hk]
    cases v with
    | obj fields => exact absurd rfl (ho fields)
    | str text => exact (hs text rfl).symm
    | _ => rfl

variable {request request' : Request} {fields : Table Json}

theorem payload?_of_body {first : UInt8} {rest : List UInt8}
    (hb : request.body = some (first :: rest)) : request.payload? =
      if isRawQuery request.contentType then none else bodyValue? (first :: rest) := by
  rw [payload?, hb]

theorem exists_of_payload? {payload : Json} (h : request.payload? = some payload) :
    ∃ first rest, request.body = some (first :: rest) ∧
      isRawQuery request.contentType = false ∧ bodyValue? (first :: rest) = some payload := by
  cases hb : request.body with
  | none => simp [payload?, hb] at h
  | some body =>
    cases body with
    | nil => simp [payload?, hb] at h
    | cons first rest =>
      rw [payload?_of_body hb] at h
      split at h
      · cases h
      · next hraw => exact ⟨first, rest, rfl, by simpa using hraw, h⟩

/-- The entries of elements, the first of which falls back to the parameters. -/
def entriesOf (request : Request) (elements : List Json) : List Entry :=
  elementEntries request.operationName request.query
    (parameterVariables request.variablesParameter) elements

theorem batch_of_array (h : request.payload? = some (.arr elements)) :
    request.batch = ⟨request.entriesOf elements, true⟩ := by
  obtain ⟨first, rest, hbody, hraw, hvalue⟩ := exists_of_payload? h
  simp only [batch, hbody, Option.getD_some, hraw, hvalue]
  rfl

theorem batch_of_object (h : request.payload? = some (.obj fields)) :
    request.batch = ⟨request.entriesOf [.obj fields], false⟩ := by
  obtain ⟨first, rest, hbody, hraw, hvalue⟩ := exists_of_payload? h
  simp only [batch, hbody, Option.getD_some, hraw, hvalue]
  rfl

theorem batch_of_other (ha : ∀ elements, request.payload? ≠ some (.arr elements))
    (ho : ∀ fields, request.payload? ≠ some (.obj fields)) :
    ∃ entry, request.batch = ⟨[entry], false⟩ := by
  cases hb : request.body with
  | none => exact ⟨request.parameterEntry, by rw [batch, hb]; rfl⟩
  | some body =>
    cases body with
    | nil => exact ⟨request.parameterEntry, by rw [batch, hb]; rfl⟩
    | cons first rest =>
      rw [payload?_of_body hb] at ha ho
      simp only [batch, hb, Option.getD_some]
      split
      · exact ⟨_, rfl⟩
      · next hraw =>
        rw [if_neg hraw] at ha ho
        split
        · next elements hv => exact absurd hv (ha elements)
        · next fields hv => exact absurd hv (ho fields)
        · exact ⟨request.parameterEntry, rfl⟩

theorem entriesOf_congr (hp : request.SameParameters request') :
    request'.entriesOf = request.entriesOf := by
  funext elements
  rw [entriesOf, entriesOf, hp.query, hp.operationName, hp.variablesParameter]

theorem getElem?_entriesOf {i : Nat} :
    (request.entriesOf elements)[i]? = elements[i]?.map (request.entryAfter (elements.take i)) :=
  getElem?_elementEntries

theorem entriesOf_singleton {element : Json} :
    request.entriesOf [element] = [request.entryAfter [] element] := by
  rw [entryAfter, List.nil_append, latest_singleton, latest_singleton]
  rfl

/-- An entry is made of its element and of those before it. -/
theorem getElem?_entriesOf_of_take {elements' : List Json} {i : Nat}
    (h : elements'.take (i + 1) = elements.take (i + 1)) :
    (request.entriesOf elements')[i]? = (request.entriesOf elements)[i]? := by
  have helement : elements'[i]? = elements[i]? := by
    rw [← List.getElem?_take_of_lt (Nat.lt_succ_self i), h,
      List.getElem?_take_of_lt (Nat.lt_succ_self i)]
  have hbefore : elements'.take i = elements.take i := by
    simpa [List.take_take] using congrArg (List.take i) h
  rw [getElem?_entriesOf, getElem?_entriesOf, helement, hbefore]

theorem batch_of_loses {payload payload' : Json} (hl : Loses payload payload')
    (hp : request.SameParameters request') (h : request.payload? = some payload)
    (h' : request'.payload? = some payload') : request'.batch = request.batch := by
  cases hl with
  | object hk hv =>
    have halike := List.Forall₂.cons (alike_without hk hv) .nil
    rw [batch_of_object h, batch_of_object h', entriesOf_congr hp]
    exact congrArg (Batch.mk · false) (elementEntries_of_alike halike)
  | @element before rest _ _ _ hk hv =>
    have halike := List.Forall₂.cons (alike_without hk hv) (alike_refl rest)
    have helements := List.rel_append (alike_refl before) halike
    rw [batch_of_array h, batch_of_array h', entriesOf_congr hp]
    exact congrArg (Batch.mk · true) (elementEntries_of_alike helements)

/-- What the entries of a request are. Each element of an array makes an entry, and takes what it
lacks from the last element before it that has it, or from the parameters; but a name is its own or
that of the parameters. An object is such an element by itself, and everything else makes one
entry. So later elements make no difference to an entry, and mistyped values none at all. -/
theorem batch_falls_back (request : Request) :
    (∀ elements, request.payload? = some (.arr elements) →
      request.batch.isMulti = true ∧ request.batch.entries.length = elements.length ∧
      ∀ i element, elements[i]? = some element →
        request.batch.entries[i]? = some (request.entryAfter (elements.take i) element)) ∧
    (∀ fields, request.payload? = some (.obj fields) →
      request.batch = ⟨[request.entryAfter [] (.obj fields)], false⟩) ∧
    ((∀ elements, request.payload? ≠ some (.arr elements)) →
      (∀ fields, request.payload? ≠ some (.obj fields)) →
      ∃ entry, request.batch = ⟨[entry], false⟩) ∧
    ∀ request', request.SameParameters request' →
      (∀ elements elements' i, request.payload? = some (.arr elements) →
        request'.payload? = some (.arr elements') →
        elements'.take (i + 1) = elements.take (i + 1) →
        request'.batch.entries[i]? = request.batch.entries[i]?) ∧
      ∀ payload payload', request.payload? = some payload → request'.payload? = some payload' →
        Loses payload payload' → request'.batch = request.batch := by
  refine ⟨?_, ?_, batch_of_other, ?_⟩
  · intro elements h
    rw [batch_of_array h]
    refine ⟨rfl, length_elementEntries, ?_⟩
    intro i element he
    rw [getElem?_entriesOf, he, Option.map_some]
  · intro fields h
    rw [batch_of_object h, entriesOf_singleton]
  · intro request' hp
    constructor
    · intro elements elements' i h h' htake
      rw [batch_of_array h, batch_of_array h', entriesOf_congr hp]
      exact getElem?_entriesOf_of_take htake
    · intro payload payload' h h' hl
      exact batch_of_loses hl hp h h'

end Request

end GraphGate

namespace GraphGate.Sample

open Request

/-- A request that consists of a body only. -/
def bodied (body : List UInt8) : Request := ⟨some body, none, none, none, none⟩

theorem payload?_bodied {body : List UInt8} {text : String} {payload : Json} (hb : body ≠ [])
    (hd : Text.Utf8.decode? body = some text) (hp : Json.parse? text.toList = some payload) :
    (bodied body).payload? = some payload := by
  cases body with
  | nil => exact absurd rfl hb
  | cons first rest =>
    rw [payload?_of_body rfl, bodyValue?, hd]
    exact hp

/-- The text `[{"query":"q"},{"query":[]}]`. -/
def mistypedBody : List UInt8 := [
  91, 123, 34, 113, 117, 101, 114, 121, 34, 58, 34, 113, 34, 125, 44, 123, 34, 113, 117, 101,
  114, 121, 34, 58, 91, 93, 125, 93]

/-- The text `[{"query":"q"},{}]`. -/
def shortBody : List UInt8 := [
  91, 123, 34, 113, 117, 101, 114, 121, 34, 58, 34, 113, 34, 125, 44, 123, 125, 93]

theorem payload?_mistypedBody : (bodied mistypedBody).payload? =
    some (.arr [.obj [("query", .str "q")], .obj [("query", .arr [])]]) := by
  have hd : Text.Utf8.decode? mistypedBody =
      some "[\x7b\"query\":\"q\"\x7d,\x7b\"query\":[]\x7d]" := by decide
  exact payload?_bodied (by decide) hd (by cbv)

theorem payload?_shortBody : (bodied shortBody).payload? =
    some (.arr [.obj [("query", .str "q")], .obj []]) := by
  have hd : Text.Utf8.decode? shortBody = some "[\x7b\"query\":\"q\"\x7d,\x7b\x7d]" := by
    decide
  exact payload?_bodied (by decide) hd (by cbv)

theorem batch_falls_back_mistyped :
    (bodied mistypedBody).batch.entries[1]? = some ⟨some "q", none, []⟩ ∧
      (bodied shortBody).batch = (bodied mistypedBody).batch := by
  obtain ⟨harray, -, -, hother⟩ := batch_falls_back (bodied mistypedBody)
  obtain ⟨-, hloses⟩ := hother (bodied shortBody) ⟨rfl, rfl, rfl⟩
  have hentry := (harray _ payload?_mistypedBody).2.2 1 _ rfl
  have hmistyped : Loses (.arr ([.obj [("query", .str "q")]] ++ .obj [("query", .arr [])] :: []))
      (.arr ([.obj [("query", .str "q")]] ++ .obj [] :: [])) :=
    @Loses.element _ _ _ "query" _ rfl (.query rfl)
  exact ⟨hentry, hloses _ _ payload?_mistypedBody payload?_shortBody hmistyped⟩

end GraphGate.Sample
