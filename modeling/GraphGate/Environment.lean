import GraphGate.Table
import GraphGate.Text.Blank

/-! Settings as texts under keys, in layers of which the first that has a key decides. -/
namespace GraphGate

inductive Environment where
  | table (values : Table String)
  | layered (layers : List Environment)

inductive SettingError where
  | invalidBoolean (key value : String)
  | invalidNumber (key value : String)
deriving DecidableEq

def SettingError.message : SettingError → String
  | .invalidBoolean key value =>
    "Invalid value for " ++ key ++ ": " ++ value ++ ". Expected true, 1, yes, on, enabled, " ++
      "enable OR false, 0, no, off, disabled, disable"
  | .invalidNumber key value =>
    "Invalid value for " ++ key ++ ": " ++ value ++ ". Expected a non-negative number"

/-- The whole numbers of a range, and whether a minus sign may be written. -/
structure NumberFormat where
  low : Int
  high : Int
  signed : Bool

namespace NumberFormat

def unsigned (bits : Nat) : NumberFormat := ⟨0, Int.pow 2 bits - 1, false⟩

def signed64 : NumberFormat := ⟨-Int.pow 2 63, Int.pow 2 63 - 1, true⟩

/-- The number that some digits stand for, if there is at least one and nothing else. -/
def natural? (cs : List Char) : Option Nat :=
  if cs.isEmpty || !cs.all Char.isDigit then none
  else some (cs.foldl (fun n c => n * 10 + (c.toNat - '0'.toNat)) 0)

/-- The number that a text stands for in the format. -/
def parse? (format : NumberFormat) (cs : List Char) : Option Int := do
  let n ← match cs with
    | '+' :: ds => (natural? ds).map Int.ofNat
    | '-' :: ds => if format.signed then (natural? ds).map fun n => -Int.ofNat n else none
    | ds => (natural? ds).map Int.ofNat
  if format.low ≤ n && n ≤ format.high then some n else none

end NumberFormat

namespace Environment

def empty : Environment := .table []

mutual

/-- The text under a key. -/
def get? (key : String) : Environment → Option String
  | .table values => values.get? key
  | .layered layers => firstOf key layers

def firstOf (key : String) : List Environment → Option String
  | [] => none
  | layer :: rest => (get? key layer).or (firstOf key rest)

end

/-- Puts a text under a key. Layers as a whole take none. -/
def set (key value : String) : Environment → Environment
  | .table values => .table (values.put key value)
  | .layered layers => .layered layers

/-- Puts a text under a key of one of the layers, if it takes any. -/
def setLayer (n : Nat) (key value : String) : Environment → Environment
  | .table values => .table values
  | .layered layers => .layered (layers.modify n (set key value))

def getOrElse (env : Environment) (key default : String) : String := (env.get? key).getD default

/-- The words for a switch that is on, and for one that is off. Only letters of the basic alphabet
have small forms in these words, so the case of others does not matter. -/
def switchValue? (text : String) : Option Bool :=
  let word := Text.lowercase text
  if ["true", "1", "yes", "on", "enabled", "enable"].contains word then some true
  else if ["false", "0", "no", "off", "disabled", "disable"].contains word then some false
  else none

/-- Whether a switch is on. -/
def enabled (env : Environment) (key : String) (default : Bool) : Except SettingError Bool :=
  match env.get? key with
  | none => .ok default
  | some text =>
    match switchValue? text with
    | some value => .ok value
    | none => .error (.invalidBoolean key text)

/-- The items between commas, without blanks around them and without empty ones. -/
def items (text : String) : List String :=
  ((Text.pieces ',' text.toList).map fun cs => String.ofList (Text.stripped Text.isBlank cs)).filter
    (· != "")

def list (env : Environment) (key : String) (default : List String) : List String :=
  match env.get? key with
  | none => default
  | some text => items text

/-- The number under a key, blanks around it left out. -/
def number? (env : Environment) (format : NumberFormat) (key : String) :
    Except SettingError (Option Int) :=
  match env.get? key with
  | none => .ok none
  | some text =>
    match format.parse? (Text.stripped Text.isBlank text.toList) with
    | some n => .ok (some n)
    | none => .error (.invalidNumber key text)

end Environment

end GraphGate
