import GraphGate.Query.Grammar
import GraphGate.Text.Quoted

/-! Reading the text of a query into a document, and what can go wrong with it. -/
namespace GraphGate.Query

/-- A line of a text as it is shown, and a column in it. -/
structure Excerpt where
  line : Nat
  column : Nat
  shown : List Char

/-- The line and column of the character behind `before`; a carriage return belongs to the line
feed after it and is a column of its own otherwise. -/
def lineColumn (before : List Char) : Nat × Nat :=
  let rec go (line column : Nat) : List Char → Nat × Nat
    | [] => (line, column)
    | '\r' :: '\n' :: rest => go (line + 1) 1 rest
    | '\n' :: rest => go (line + 1) 1 rest
    | _ :: rest => go line (column + 1) rest
  go 1 1 before

/-- The excerpt at an offset. If a line end stands there, the line ends of the line are visible. -/
def Excerpt.at (text : List Char) (offset : Nat) : Excerpt :=
  let before := text.take offset
  let after := text.drop offset
  let start := (before.reverse.takeWhile (· != '\n')).reverse
  let tail := after.takeWhile (· != '\n')
  let (line, column) := lineColumn before
  let atLineEnd := after.head?.any Parser.isLineEnd
  let full := start ++ tail ++ (if tail.length < after.length then ['\n'] else [])
  let shown :=
    if atLineEnd then
      full.map fun c => if c = '\r' then '\u240d' else if c = '\n' then '\u240a' else c
    else full.filter (!Parser.isLineEnd ·)
  ⟨line, column, shown⟩

/-- The line in a frame, with a mark under the column. -/
def Excerpt.text (e : Excerpt) : String :=
  let number := toString e.line
  let margin := "".pushn ' ' number.length
  let indent := (e.shown.take (e.column - 1)).map fun c => if c = '\t' then c else ' '
  "\n".intercalate [
    margin ++ "--> " ++ number ++ ":" ++ toString e.column,
    margin ++ " |",
    number ++ " | " ++ String.ofList e.shown,
    margin ++ " | " ++ String.ofList indent ++ "^---",
    margin ++ " |"]

/-- Why a text is no document. -/
inductive DocumentError where
  | unexpected (excerpt : Excerpt)
  | numberOutOfRange (position : Position) (column : Nat)
  | exponentTooLong (position : Position) (column : Nat)
  | nestedTooDeep
  | anonymousAmongOthers (anonymous other : Position)
  | operationRepeated (first second : Position)
  | fragmentRepeated (name : String) (first second : Position)
  | noOperation

namespace DocumentError

/-- The wording of what the grammar refuses. -/
def malformed (detail : String) : String := "Syntax error:\\n" ++ Text.embedded detail

/-- What is wrong with a number, in a column of its own text. -/
def badNumber (detail : String) (column : Nat) : String :=
  malformed ("invalid number: " ++ detail ++ " at line 1 column " ++ toString column)

def message : DocumentError → String
  | .unexpected excerpt => malformed excerpt.text
  | .numberOutOfRange _ column => badNumber "number out of range" column
  | .exponentTooLong _ column => badNumber "invalid number" column
  | .nestedTooDeep => "Unknown error"
  | .anonymousAmongOthers .. => "Multiple operations"
  | .operationRepeated .. => "Operation duplicated"
  | .fragmentRepeated name .. => "Fragment " ++ name ++ " duplicated"
  | .noOperation => "Missing operation"

def positions : DocumentError → List Position
  | .unexpected excerpt => [⟨excerpt.line, excerpt.column⟩]
  | .numberOutOfRange position _ | .exponentTooLong position _ => [position]
  | .anonymousAmongOthers anonymous other => [anonymous, other]
  | .operationRepeated first second | .fragmentRepeated _ first second => [first, second]
  | .nestedTooDeep | .noOperation => []

end DocumentError

namespace Document

open Grammar

/-- What was collected from the definitions so far. -/
structure Draft where
  operations : Option Operations
  fragments : List (String × Fragment)

/-- Adds a definition: an operation without a name must be the only one, and names are unique. -/
def Draft.add (d : Draft) : Definition → Except DocumentError Draft
  | .operation none operation =>
    match d.operations with
    | none => .ok { d with operations := some (.single operation) }
    | some (.single other) => .error (.anonymousAmongOthers operation.position other.position)
    | some (.named []) => .ok { d with operations := some (.single operation) }
    | some (.named ((_, other) :: _)) =>
      .error (.anonymousAmongOthers operation.position other.position)
  | .operation (some name) operation =>
    match d.operations with
    | none => .ok { d with operations := some (.named [(name, operation)]) }
    | some (.single anonymous) =>
      .error (.anonymousAmongOthers anonymous.position operation.position)
    | some (.named others) =>
      match Table.get? name others with
      | some first => .error (.operationRepeated first.position operation.position)
      | none => .ok { d with operations := some (.named (others ++ [(name, operation)])) }
  | .fragment name fragment =>
    match Table.get? name d.fragments with
    | some first => .error (.fragmentRepeated name first.position fragment.position)
    | none => .ok { d with fragments := d.fragments ++ [(name, fragment)] }

def ofDefinitions (definitions : List Definition) : Except DocumentError Document := do
  let draft ← definitions.foldlM Draft.add ⟨none, []⟩
  match draft.operations with
  | some operations => return ⟨operations, draft.fragments⟩
  | none => throw .noOperation

/-- The document that a text holds. -/
def parse (text : String) : Except DocumentError Document :=
  match read text.toList with
  | (none, state) => .error (.unexpected (.at text.toList state.furthest))
  | (some definitions, state) =>
    match state.fault with
    | some (.numberOutOfRange position column) => .error (.numberOutOfRange position column)
    | some (.exponentTooLong position column) => .error (.exponentTooLong position column)
    | some .nestedTooDeep => .error .nestedTooDeep
    | none => ofDefinitions definitions

end Document

end GraphGate.Query
