import GraphGate.Settings
import GraphGate.Text.Pattern.Reader

/-! How much is written to the log: the highest level of the directives in the environment. -/
namespace GraphGate

inductive Verbosity where
  | off
  | error
  | warn
  | info
  | debug
  | trace
deriving DecidableEq

namespace Verbosity

def all : List Verbosity := [off, error, warn, info, debug, trace]

def rank : Verbosity → Nat
  | off => 0
  | error => 1
  | warn => 2
  | info => 3
  | debug => 4
  | trace => 5

def name : Verbosity → String
  | off => "off"
  | error => "error"
  | warn => "warn"
  | info => "info"
  | debug => "debug"
  | trace => "trace"

/-- A level is written as its name in any case or as its rank. -/
def parse? (text : String) : Option Verbosity :=
  match (NumberFormat.unsigned 64).parse? text.toList with
  | some n => all.find? fun v => (v.rank : Int) = n
  | none => all.find? (·.name = Text.lowercase text)

/-- The level written from place `i` of a directive on. Nothing there stands for all. -/
def writtenAt? (directive : List Char) (i : Nat) : Option Verbosity :=
  match directive.drop i with
  | [] => some trace
  | level => parse? (String.ofList level)

/-- What a valid directive asks for: a level, and perhaps that the values of fields are compared. -/
structure Directive where
  level : Verbosity
  comparesValues : Bool

/-! A directive is read from its first character that is not blank to the last one. The texts at the
places of its marks are cut from the directive as it was written. -/
namespace Directive

def startsTarget (c : Char) : Bool :=
  c == '-' || c == ':' || c == '_' || Text.isAlphanumeric c

/-- Digits with a point or without, and perhaps an exponent. -/
def isDecimal (cs : List Char) : Bool :=
  let whole := cs.takeWhile Char.isDigit
  let (fraction, rest) := match cs.drop whole.length with
    | '.' :: rest => (rest.takeWhile Char.isDigit, rest.dropWhile Char.isDigit)
    | rest => ([], rest)
  let isExponent : List Char → Bool
    | '+' :: digits => (NumberFormat.natural? digits).isSome
    | '-' :: digits => (NumberFormat.natural? digits).isSome
    | digits => (NumberFormat.natural? digits).isSome
  !(whole ++ fraction).isEmpty &&
    match rest with
    | [] => true
    | e :: rest => (e == 'e' || e == 'E') && isExponent rest

/-- A value to compare with is a search pattern or a number. A number without a plus sign is a
pattern. -/
def isFieldValue : List Char → Bool
  | '+' :: number =>
    isDecimal number ||
      ["inf", "infinity", "nan"].contains (Text.lowercase (String.ofList number))
  | value => Text.isPattern value

/-- Whether the field between two braces is compared with a value: what is between the first and the
second equals sign. -/
def comparesValue? : List Char → Option Bool
  | [] => none
  | field =>
    match Text.pieces '=' field with
    | _ :: value :: _ => if isFieldValue value then some true else none
    | _ => some false

/-- The level behind a span, where `rest` is what comes from place `i` on. -/
def behindSpan? (directive : List Char) (i : Nat) : List Char → Option Verbosity
  | [] => some .trace
  | '=' :: _ => writtenAt? directive (i + 1)
  | _ => none

/-- A field and what is behind it. -/
def field? (directive : List Char) (i : Nat) (rest : List Char) : Option Directive := do
  let length := (rest.takeWhile (· != '\x7d')).length
  match rest.drop length with
  | '\x7d' :: ']' :: rest =>
    let comparesValues ← comparesValue? ((directive.drop i).take length)
    return ⟨← behindSpan? directive (i + length + 2) rest, comparesValues⟩
  | _ => none

/-- The name of a span with or without a field, and what is behind it. -/
def span? (directive : List Char) (i : Nat) (rest : List Char) : Option Directive := do
  let length := (rest.takeWhile fun c => c != ']' && c != '\x7b').length
  match rest.drop length with
  | ']' :: rest => return ⟨← behindSpan? directive (i + length + 1) rest, false⟩
  | '\x7b' :: rest => field? directive (i + length + 1) rest
  | _ => none

/-- A directive is a level alone, or a target and a span of which one may be missing with a level
behind an equals sign. Without a level it has all. -/
def parse? (directive : List Char) : Option Directive := do
  match Text.stripped Text.isBlank directive with
  | [] => none
  | '[' :: rest => span? directive 1 rest
  | c :: rest =>
    if startsTarget c then
      let length := (rest.takeWhile fun c => c != '=' && c != '[').length
      match rest.drop length with
      | [] => return ⟨(Verbosity.parse? (String.ofList directive)).getD .trace, false⟩
      | '[' :: rest => span? directive (length + 2) rest
      | _ => return ⟨← writtenAt? directive (length + 2), false⟩
    else none

end Directive

/-- The level of some directives: the highest of them, or all when values of fields are compared.
Without a valid directive warnings are written. -/
def ofDirectives (text : String) : Verbosity :=
  match (Text.pieces ',' text.toList).filterMap Directive.parse? with
  | [] => warn
  | d :: rest =>
    if (d :: rest).any (·.comparesValues) then trace
    else rest.foldl (fun v d => if v.rank < d.level.rank then d.level else v) d.level

end Verbosity

/-- The log of a process, which is set up once. -/
structure Log where
  verbosity : Verbosity
  installed : Bool

namespace Log

def fresh : Log := ⟨.off, false⟩

inductive SetupError where
  | alreadyInstalled

def SetupError.message : SetupError → String
  | .alreadyInstalled => "Tracing subscriber already initialized: " ++
    "a global default trace dispatcher has already been set"

def setup (log : Log) (env : Environment) : Except SetupError Log :=
  if log.installed then .error .alreadyInstalled
  else .ok ⟨.ofDirectives (env.getOrElse Setting.log ""), true⟩

end Log

end GraphGate
