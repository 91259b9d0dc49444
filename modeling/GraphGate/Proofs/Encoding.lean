import GraphGate.Json.Printer
import GraphGate.Proofs.Batch
import GraphGate.Proofs.Json.Nesting
import GraphGate.Proofs.Request

/-! Variables as JSON text and as they are: it makes no difference to a request, nor to anything
that becomes of it. -/
namespace GraphGate

/-- A value that nests no deeper than the reader allows is read from its own text. -/
def Json.ReadsBack (v : Json) : Prop := v.nesting ≤ Json.depthLimit → Json.parse? v.chars = some v

namespace Request

/-- The variables of an element may be given as their text. -/
inductive Encodes : Json → Json → Prop
  | same {element : Json} : Encodes element element
  | encoded {fields bindings : Table Json} (h : fields.get? "variables" = some (.obj bindings)) :
    Encodes (.obj fields) (.obj (fields.put "variables" (.str (Json.obj bindings).text)))

/-- Those of any elements of a payload. -/
inductive EncodesPayload : Json → Json → Prop
  | array {elements elements' : List Json} (h : List.Forall₂ Encodes elements elements') :
    EncodesPayload (.arr elements) (.arr elements')
  | object {fields fields' : Table Json} (h : Encodes (.obj fields) (.obj fields')) :
    EncodesPayload (.obj fields) (.obj fields')

/-- Those of a parameter. -/
inductive EncodesParameter : Option VariablesParameter → Option VariablesParameter → Prop
  | same {parameter : Option VariablesParameter} : EncodesParameter parameter parameter
  | encoded {bindings : Table Json} (h : (Json.obj bindings).nesting ≤ Json.depthLimit) :
    EncodesParameter (some (.decoded bindings)) (some (.encoded (Json.obj bindings).text))

/-- Two bodies that are the same, or hold payloads of which the second has variables as text. -/
inductive EncodesBody : Request → Request → Prop
  | same {request request' : Request} (h : request'.body = request.body) :
    EncodesBody request request'
  | encoded {request request' : Request} {payload payload' : Json}
    (hp : request.payload? = some payload) (hp' : request'.payload? = some payload')
    (h : EncodesPayload payload payload') : EncodesBody request request'

/-- The second request is the first but for some variables, which it has as text. -/
structure EncodesRequest (request request' : Request) : Prop where
  query : request'.query = request.query
  operationName : request'.operationName = request.operationName
  contentType : request'.contentType = request.contentType
  parameter : EncodesParameter request.variablesParameter request'.variablesParameter
  body : EncodesBody request request'

/-- Variables that a request has as they are. -/
inductive Carries (request : Request) : Table Json → Prop
  | parameter {bindings : Table Json} (h : request.variablesParameter = some (.decoded bindings)) :
    Carries request bindings
  | object {fields bindings : Table Json} (hp : request.payload? = some (.obj fields))
    (h : fields.get? "variables" = some (.obj bindings)) : Carries request bindings
  | element {elements : List Json} {fields bindings : Table Json}
    (hp : request.payload? = some (.arr elements)) (hm : .obj fields ∈ elements)
    (h : fields.get? "variables" = some (.obj bindings)) : Carries request bindings

variable {request request' : Request} {bindings : Table Json}

theorem decodeObject?_text (h : (Json.obj bindings).ReadsBack)
    (hn : (Json.obj bindings).nesting ≤ Json.depthLimit) :
    decodeObject? (Json.obj bindings).text = some bindings := by
  rw [decodeObject?, Json.text, String.toList_ofList, h hn]

theorem nesting_of_payload? {payload : Json} (h : request.payload? = some payload) :
    payload.nesting ≤ Json.depthLimit := by
  obtain ⟨first, rest, -, -, hv⟩ := exists_of_payload? h
  obtain ⟨text, -, hp⟩ := Option.bind_eq_some_iff.mp hv
  exact Json.nesting_of_parse? hp

/-- An element reads the same, whichever way its variables are given. -/
theorem alike_of_encodes {element element' : Json} (he : Encodes element element')
    (hn : element.nesting ≤ Json.depthLimit)
    (hr : ∀ fields bindings : Table Json, element = .obj fields →
      fields.get? "variables" = some (.obj bindings) → (Json.obj bindings).ReadsBack) :
    Alike element element' := by
  cases he with
  | same => exact ⟨rfl, rfl, rfl⟩
  | @encoded fields bindings h =>
    -- The reader has got to the bottom of the element, so it can read what is inside by itself.
    have hlt := Json.nesting_lt_of_get? h
    have hd := decodeObject?_text (hr fields bindings rfl h) (by omega)
    refine ⟨?_, ?_, ?_⟩
    · rw [string?, string?, Json.get?, Json.get?, Table.get?_put, if_neg (by decide)]
    · rw [string?, string?, Json.get?, Json.get?, Table.get?_put, if_neg (by decide)]
    · rw [elementVariables?, elementVariables?, Json.get?, Json.get?, Table.get?_put, if_pos rfl, h]
      exact hd

theorem parameterVariables_of_encodes {parameter parameter' : Option VariablesParameter}
    (he : EncodesParameter parameter parameter')
    (hr : ∀ bindings, parameter = some (.decoded bindings) → (Json.obj bindings).ReadsBack) :
    parameterVariables parameter' = parameterVariables parameter := by
  cases he with
  | same => rfl
  | @encoded bindings hn =>
    rw [parameterVariables, decodeObject?_text (hr bindings rfl) hn]
    rfl

theorem entriesOf_of_encodes (he : request.EncodesRequest request')
    (hr : ∀ bindings, request.Carries bindings → (Json.obj bindings).ReadsBack) :
    request'.entriesOf = request.entriesOf := by
  have hp := parameterVariables_of_encodes he.parameter fun bindings h => hr bindings (.parameter h)
  funext elements
  rw [entriesOf, entriesOf, he.query, he.operationName, hp]

theorem forall₂_alike_of_encodes {elements elements' : List Json}
    (he : List.Forall₂ Encodes elements elements')
    (ha : ∀ element ∈ elements, ∀ element', Encodes element element' → Alike element element') :
    List.Forall₂ Alike elements elements' := by
  induction he with
  | nil => exact .nil
  | cons he _ ih =>
    obtain ⟨hfirst, hrest⟩ := List.forall_mem_cons.mp ha
    exact .cons (hfirst _ he) (ih hrest)

theorem batch_of_encodesPayload (he : request.EncodesRequest request')
    (hr : ∀ bindings, request.Carries bindings → (Json.obj bindings).ReadsBack)
    {payload payload' : Json} (hp : request.payload? = some payload)
    (hp' : request'.payload? = some payload') (h : EncodesPayload payload payload') :
    request'.batch = request.batch := by
  have hn := nesting_of_payload? hp
  cases h with
  | @array elements elements' hs =>
    have halike := forall₂_alike_of_encodes hs fun element hm element' h =>
      alike_of_encodes h (Nat.le_of_lt (Nat.lt_of_lt_of_le (Json.nesting_lt_of_mem hm) hn))
        fun fields bindings hf hb => hr bindings (.element hp (hf ▸ hm) hb)
    rw [batch_of_array hp, batch_of_array hp', entriesOf_of_encodes he hr]
    exact congrArg (Batch.mk · true) (elementEntries_of_alike halike)
  | @object fields fields' h =>
    have halike := alike_of_encodes h hn fun fields bindings hf hb =>
      hr bindings (.object (hf ▸ hp) hb)
    rw [batch_of_object hp, batch_of_object hp', entriesOf_of_encodes he hr]
    exact congrArg (Batch.mk · false) (elementEntries_of_alike (.cons halike .nil))

theorem batch_of_body (he : request.EncodesRequest request')
    (hr : ∀ bindings, request.Carries bindings → (Json.obj bindings).ReadsBack)
    (hb : request'.body = request.body) : request'.batch = request.batch := by
  have hp := parameterVariables_of_encodes he.parameter fun bindings h => hr bindings (.parameter h)
  simp only [batch, parameterEntry, hb, he.contentType, he.query, he.operationName, hp]

/-- Variables may be given as their JSON text: those of any elements of the body, and those of a
parameter. As far as they are read from their text, the entries stay the same, and so does whatever
a gateway answers, and what it leaves behind. -/
theorem encoded_variables_interchangeable (he : request.EncodesRequest request')
    (hr : ∀ bindings, request.Carries bindings → (Json.obj bindings).ReadsBack) :
    request'.batch = request.batch ∧
      ∀ {ρ σ : Type} (g : Gateway ρ σ) (stop : Option Nat) (now : Nat) (world : World σ),
        g.resolve stop now world request' = g.resolve stop now world request := by
  have hbatch : request'.batch = request.batch := by
    cases he.body with
    | same hb => exact batch_of_body he hr hb
    | encoded hp hp' h => exact batch_of_encodesPayload he hr hp hp' h
  refine ⟨hbatch, fun g stop now world => ?_⟩
  rw [Gateway.resolve, Gateway.resolve, hbatch]

end Request

end GraphGate

namespace GraphGate.Sample

open Request

/-- Variables of an element. -/
def sevens : Table Json := [("id", .str "7")]

/-- Variables of a parameter. -/
def flags : Table Json := [("all", .bool true)]

/-- The text `[{"variables":{"id":"7"}},{}]`. -/
def plainBody : List UInt8 := [
  91, 123, 34, 118, 97, 114, 105, 97, 98, 108, 101, 115, 34, 58, 123, 34, 105, 100, 34, 58, 34, 55,
  34, 125, 125, 44, 123, 125, 93]

/-- The text `[{"variables":"{\"id\":\"7\"}"},{}]`. -/
def encodedBody : List UInt8 := [
  91, 123, 34, 118, 97, 114, 105, 97, 98, 108, 101, 115, 34, 58, 34, 123, 92, 34, 105, 100, 92, 34,
  58, 92, 34, 55, 92, 34, 125, 34, 125, 44, 123, 125, 93]

/-- A request with one body and one way to give the variables of its parameter. -/
def varied (body : List UInt8) (parameter : VariablesParameter) : Request :=
  ⟨some body, none, some parameter, none, none⟩

theorem payload?_plainBody : (varied plainBody (.decoded flags)).payload? =
    some (.arr [.obj [("variables", .obj sevens)], .obj []]) := by
  have hd : Text.Utf8.decode? plainBody =
      some "[\x7b\"variables\":\x7b\"id\":\"7\"\x7d\x7d,\x7b\x7d]" := by decide
  exact payload?_bodied (by decide) hd (by cbv)

theorem payload?_encodedBody : (varied encodedBody (.encoded (Json.obj flags).text)).payload? =
    some (.arr [.obj [("variables", .str (Json.obj sevens).text)], .obj []]) := by
  have hd : Text.Utf8.decode? encodedBody =
      some "[\x7b\"variables\":\"\x7b\\\"id\\\":\\\"7\\\"\x7d\"\x7d,\x7b\x7d]" := by decide
  exact payload?_bodied (by decide) hd (by cbv)

theorem readsBack_sevens : (Json.obj sevens).ReadsBack := by
  intro _
  cbv

theorem readsBack_flags : (Json.obj flags).ReadsBack := by
  intro _
  cbv

theorem encodesRequest_varied : (varied plainBody (.decoded flags)).EncodesRequest
    (varied encodedBody (.encoded (Json.obj flags).text)) where
  query := rfl
  operationName := rfl
  contentType := rfl
  parameter := .encoded (by decide)
  body := .encoded payload?_plainBody payload?_encodedBody
    (.array (.cons (.encoded rfl) (.cons .same .nil)))

theorem encoded_variables_interchangeable_varied :
    (varied encodedBody (.encoded (Json.obj flags).text)).batch =
        (varied plainBody (.decoded flags)).batch ∧
      (⟨sleepy, true⟩ : Gateway Unit (List Path)).resolve none 0 ⟨false, []⟩
          (varied encodedBody (.encoded (Json.obj flags).text)) =
        (⟨sleepy, true⟩ : Gateway Unit (List Path)).resolve none 0 ⟨false, []⟩
          (varied plainBody (.decoded flags)) := by
  have hread : ∀ bindings, (varied plainBody (.decoded flags)).Carries bindings →
      (Json.obj bindings).ReadsBack := by
    rintro bindings (h | ⟨hp, h⟩ | ⟨hp, hm, h⟩)
    · cases h
      exact readsBack_flags
    · rw [payload?_plainBody] at hp
      cases hp
    · rw [payload?_plainBody] at hp
      cases hp
      rcases List.mem_cons.mp hm with hm | hm
      · cases hm
        cases h
        exact readsBack_sevens
      · cases List.mem_singleton.mp hm
        cases h
  obtain ⟨hbatch, hresolve⟩ := encoded_variables_interchangeable encodesRequest_varied hread
  exact ⟨hbatch, hresolve ⟨sleepy, true⟩ none 0 ⟨false, []⟩⟩

end GraphGate.Sample
