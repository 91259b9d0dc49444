import GraphGate.Environment
import GraphGate.Gate

/-! What an environment says about the execution of operations. -/
namespace GraphGate

namespace Setting

def depthLimit : String := "TRELLIS_QUERY_DEPTH_LIMIT"
def timeout : String := "TRELLIS_RESOLVE_TIMEOUT_MS"
def operationCheck : String := "TRELLIS_SECURITY_OPERATION_CHECK"
def fieldCheck : String := "TRELLIS_SECURITY_FIELD_CHECK"
def deniedOperations : String := "TRELLIS_SECURITY_DENIED_OPERATIONS"
def deniedFields : String := "TRELLIS_SECURITY_DENIED_FIELDS"
def parallelOperations : String := "TRELLIS_PARALLEL_OPERATIONS"
def log : String := "TRELLIS_LOG"

end Setting

/-- How long a resolver may take, in milliseconds, and how deep operations may be. -/
structure Options where
  timeout : Option Nat
  depthLimit : Nat
deriving DecidableEq

namespace Options

def defaultDepthLimit : Nat := 64

def standard : Options := ⟨none, defaultDepthLimit⟩

end Options

namespace Environment

def depthLimit (env : Environment) : Except SettingError Nat :=
  (env.number? (.unsigned 64) Setting.depthLimit).map fun n =>
    n.elim Options.defaultDepthLimit Int.toNat

def timeout (env : Environment) : Except SettingError (Option Nat) :=
  (env.number? (.unsigned 64) Setting.timeout).map (·.map Int.toNat)

def options (env : Environment) : Except SettingError Options := do
  let timeout ← env.timeout
  let depthLimit ← env.depthLimit
  return ⟨timeout, depthLimit⟩

def operationCheck (env : Environment) : Except SettingError Bool :=
  env.enabled Setting.operationCheck true

def fieldCheck (env : Environment) : Except SettingError Bool :=
  env.enabled Setting.fieldCheck true

def capabilities (env : Environment) : Except SettingError Capabilities := do
  let operationCheck ← env.operationCheck
  let fieldCheck ← env.fieldCheck
  return ⟨operationCheck, fieldCheck⟩

def deniedOperations (env : Environment) : List String := env.list Setting.deniedOperations []

def deniedFields (env : Environment) : List String := env.list Setting.deniedFields []

/-- The policy that denies what is listed. -/
def denyList (env : Environment) : Policy := .denyList env.deniedOperations env.deniedFields

def parallelOperations (env : Environment) : Except SettingError Bool :=
  env.enabled Setting.parallelOperations false

end Environment

end GraphGate
