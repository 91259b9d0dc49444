import GraphGate.Json.Reader
import GraphGate.Text.Blank
import GraphGate.Text.Utf8

/-! Requests: the queries that a body and some parameters carry. -/
namespace GraphGate

/-- One query with its variables. -/
structure Entry where
  query : Option String
  operationName : Option String
  bindings : Table Json

/-- Variables as JSON text, or as they are. -/
inductive VariablesParameter where
  | encoded (text : String)
  | decoded (bindings : Table Json)

structure Request where
  body : Option (List UInt8)
  query : Option String
  variablesParameter : Option VariablesParameter
  operationName : Option String
  contentType : Option String

/-- The entries of a request, and whether it is a batch. -/
structure Batch where
  entries : List Entry
  isMulti : Bool

namespace Request

/-- The object that a text holds. -/
def decodeObject? (text : String) : Option (Table Json) :=
  match Json.parse? text.toList with
  | some (.obj fields) => some fields
  | _ => none

/-- Variables that cannot be read count as none. -/
def parameterVariables : Option VariablesParameter → Table Json
  | none => []
  | some (.encoded text) => (decodeObject? text).getD []
  | some (.decoded bindings) => bindings

/-- Whether the body is the text of a query: parameters of the media type do not matter. -/
def isRawQuery (contentType : Option String) : Bool :=
  match contentType with
  | none => false
  | some text =>
    Text.lowercase (Text.trim (String.ofList (text.toList.takeWhile (· != ';')))) ==
      "application/graphql"

/-- The variables of an element: an object, or the text of one. -/
def elementVariables? (element : Json) : Option (Table Json) :=
  match element.get? "variables" with
  | some (.obj fields) => some fields
  | some (.str text) => decodeObject? text
  | _ => none

/-- The entries of a list of elements. What an element lacks it takes from the one before it, but
for its operation name. -/
def elementEntries (operationName : Option String) (query : Option String)
    (bindings : Table Json) : List Json → List Entry
  | [] => []
  | element :: rest =>
    let query := ((element.get? "query").bind Json.string?).or query
    let name := ((element.get? "operationName").bind Json.string?).or operationName
    let bindings := (elementVariables? element).getD bindings
    ⟨query, name, bindings⟩ :: elementEntries operationName query bindings rest

/-- The one entry that the parameters make. -/
def parameterEntry (request : Request) : Entry :=
  ⟨request.query, request.operationName, parameterVariables request.variablesParameter⟩

/-- The value that a body holds. -/
def bodyValue? (body : List UInt8) : Option Json :=
  (Text.Utf8.decode? body).bind fun text => Json.parse? text.toList

/-- The entries of a request. Nothing fails here: what cannot be read gives way to the
parameters. -/
def batch (request : Request) : Batch :=
  match request.body.getD [] with
  | [] => ⟨[request.parameterEntry], false⟩
  | body =>
    if isRawQuery request.contentType then
      ⟨[⟨some (Text.Utf8.decodeLossy body), request.operationName, []⟩], false⟩
    else
      let entries := elementEntries request.operationName request.query
        (parameterVariables request.variablesParameter)
      match bodyValue? body with
      | some (.arr elements) => ⟨entries elements, true⟩
      | some (.obj fields) => ⟨entries [.obj fields], false⟩
      | _ => ⟨[request.parameterEntry], false⟩

end Request

end GraphGate
