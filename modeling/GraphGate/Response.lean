import GraphGate.Gate
import GraphGate.Json.Printer

/-! Responses: the data of an execution beside its errors. -/
namespace GraphGate

open Query (Position)

inductive ErrorKind where
  | parseOrValidation
  | operationAccessDenied
  | fieldAccessDenied
  | serviceNotFound
  | methodNotFound
  | resolutionTimeout
  | resolutionRuntime
deriving DecidableEq

def ErrorKind.name : ErrorKind → String
  | .parseOrValidation => "ParseOrValidationError"
  | .operationAccessDenied => "OperationAccessDenied"
  | .fieldAccessDenied => "FieldAccessDenied"
  | .serviceNotFound => "ServiceNotFound"
  | .methodNotFound => "MethodNotFound"
  | .resolutionTimeout => "ResolutionTimeout"
  | .resolutionRuntime => "ResolutionRuntimeError"

/-- Why a field has no value. -/
inductive FieldError where
  | denied (denial : Denial)
  | serviceNotFound (service field : String)
  | methodNotFound (method service field : String)
  | timedOut (field : String)
  | cancelled (field : String)
  | failed (message : String)
  | panicked (field : String)
  | nullValue (path : Path)
  | invalidValue (type : String) (value : Json)
  | fieldUndefined (type field : String)

namespace FieldError

def message : FieldError → String
  | .denied denial => denial.message
  | .serviceNotFound service field =>
    "Resolve service \"" ++ service ++ "\" not found for field \"" ++ field ++ "\""
  | .methodNotFound method service field =>
    "Resolve method \"" ++ method ++ "\" not found in \"" ++ service ++
      "\" service for field \"" ++ field ++ "\""
  | .timedOut field => "Resolution of field \"" ++ field ++ "\" timed out"
  | .cancelled field => "Resolution of field \"" ++ field ++ "\" was cancelled"
  | .failed message => message
  | .panicked field => "Resolver for field \"" ++ field ++ "\" panicked"
  | .nullValue path => "Cannot return null for non-nullable field \"" ++ path.text ++ "\""
  | .invalidValue type value =>
    "Value " ++ value.text ++ " is not valid for type \"" ++ type ++ "\""
  | .fieldUndefined type field =>
    "Field \"" ++ field ++ "\" is not defined on type \"" ++ type ++ "\""

def kind : FieldError → ErrorKind
  | .denied _ => .fieldAccessDenied
  | .serviceNotFound .. => .serviceNotFound
  | .methodNotFound .. => .methodNotFound
  | .timedOut _ | .cancelled _ => .resolutionTimeout
  | .failed _ | .panicked _ | .nullValue _ | .invalidValue .. | .fieldUndefined .. =>
    .resolutionRuntime

end FieldError

structure ResponseError where
  message : String
  locations : List Position
  path : Option Path
  kind : ErrorKind

namespace ResponseError

def ofField (error : FieldError) (node : FieldNode) (path : Path) : ResponseError :=
  ⟨error.message, [node.position], some path, error.kind⟩

def ofPlan (error : PlanError) : ResponseError :=
  ⟨error.message, error.positions, none, .parseOrValidation⟩

def ofOperation (denial : Denial) : ResponseError :=
  ⟨denial.message, [], none, .operationAccessDenied⟩

end ResponseError

structure Envelope where
  data : Json
  errors : List ResponseError

/-- The envelope of a request that was turned down as a whole. -/
def Envelope.rejected (error : ResponseError) : Envelope := ⟨.null, [error]⟩

def Segment.toJson : Segment → Json
  | .field name => .str name
  | .index n => .num (.int n)

def Path.toJson (path : Path) : Json := .arr (path.map Segment.toJson)

def locationJson (p : Position) : Json :=
  .obj [("line", .num (.int p.line)), ("column", .num (.int p.column))]

/-- Locations and path are left out where there are none. -/
def ResponseError.toJson (e : ResponseError) : Json :=
  .obj ([("message", .str e.message)] ++
    (if e.locations.isEmpty then [] else [("locations", .arr (e.locations.map locationJson))]) ++
    (e.path.elim [] fun path => [("path", path.toJson)]) ++
    [("kind", .str e.kind.name)])

/-- Errors are left out where there are none. -/
def Envelope.toJson (e : Envelope) : Json :=
  .obj ([("data", e.data)] ++
    if e.errors.isEmpty then [] else [("errors", .arr (e.errors.map ResponseError.toJson))])

end GraphGate
