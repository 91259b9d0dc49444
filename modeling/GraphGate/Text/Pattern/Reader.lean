import GraphGate.Text.Alphanumeric
import GraphGate.Text.Pattern.Element
import GraphGate.Text.Pattern.Nesting

/-! Which texts are search patterns: characters, sets of characters, groups and repetitions. A
reader goes through the text one character a step and looks ahead where it has to. -/
namespace GraphGate.Text.Pattern

/-- What was read of a set's head: its bracket, the sign of the complement, minus signs that stand
for themselves, or all of it. -/
inductive Head where
  | bracket
  | complement
  | minus
  | whole
deriving DecidableEq

/-- Where a reader of a pattern stands: in the mode, what was read of the group around, mode and
inside of the groups farther out, names of groups, the sets around, the head of the innermost set,
and how many characters were seen in advance. -/
structure Reader where
  mode : Mode
  inside : Inside
  outside : List (Mode × Inside)
  names : List (List Char)
  sets : List Operand
  head : Head
  seen : Nat

namespace Reader

def start : Reader := ⟨.default, .empty, [], [], [], .whole, 0⟩

/-- After a part that has some characters still to come. -/
def part (r : Reader) (depth ahead : Nat) : Reader :=
  { r with inside := r.inside.add depth, seen := ahead }

def openGroup (r : Reader) (mode : Mode) (ahead : Nat) : Reader :=
  { r with mode, inside := .empty, outside := (r.mode, r.inside) :: r.outside, seen := ahead }

def closeGroup? (r : Reader) : Option Reader :=
  match r.outside with
  | [] => none
  | (mode, inside) :: outside =>
    some { r with mode, inside := inside.add (1 + r.inside.depth), outside }

def isGroupName : List Char → Bool
  | [] => false
  | c :: rest =>
    (c == '_' || isAlphabetic c) &&
      rest.all fun c => "_.[]".toList.contains c || isAlphanumeric c

/-- A group with a name, of which `ahead` characters stand before the name. -/
def namedGroup? (r : Reader) (ahead : Nat) (rest : List Char) : Option Reader :=
  let name := rest.takeWhile (· != '>')
  if name.length < rest.length ∧ isGroupName name ∧ !r.names.contains name then
    some { r.openGroup r.mode (ahead + name.length + 1) with names := name :: r.names }
  else none

/-- The head of a group behind its bracket and `gap` characters that are passed over. Letters alone
change the mode up to the end of the group around them; with a colon they open a group. -/
def group? (r : Reader) (gap : Nat) : List Char → Option Reader
  | '?' :: 'P' :: '<' :: rest => r.namedGroup? (gap + 3) rest
  | '?' :: '<' :: rest => r.namedGroup? (gap + 2) rest
  | '?' :: rest =>
    let letters := rest.takeWhile isModeLetter
    let mode := r.mode.change letters
    let ahead := gap + 2 + letters.length
    if areModeLetters letters then
      match rest.drop letters.length with
      | ':' :: _ => some (r.openGroup mode ahead)
      | ')' :: _ =>
        if letters.isEmpty then none
        else some { r with mode, inside := r.inside.addLetters, seen := ahead }
      | _ => none
    else none
  | _ => some (r.openGroup r.mode gap)

def openSet (r : Reader) : Reader := { r with sets := .empty :: r.sets, head := .bracket }

/-- An element of the innermost set, after which there is no more head. -/
def element (r : Reader) (depth ahead : Nat) : Reader :=
  match r.sets with
  | [] => r
  | set :: sets => { r with sets := set.add depth :: sets, head := .whole, seen := ahead }

/-- A set that ends is an element of the set around it or a part of the group. -/
def closeSet (r : Reader) : Reader :=
  match r.sets with
  | [] => r
  | set :: [] => { r with sets := [], head := .whole }.part (1 + set.depth) 0
  | set :: sets => { r with sets }.element (1 + set.depth) 0

def operate (r : Reader) : Reader :=
  match r.sets with
  | [] => r
  | set :: sets => { r with sets := set.operate :: sets, head := .whole, seen := 1 }

/-- One step behind the head of a set. -/
def inSet? (r : Reader) (c : Char) (rest : List Char) : Option Reader :=
  if c == '[' then
    match namedSet? rest with
    | some (ahead, negated) =>
      if r.mode.takesCharacters && (r.mode.wide || !negated) then some (r.element 0 ahead) else none
    | none => some r.openSet
  else if c == ']' then some r.closeSet
  else if "&-~".toList.contains c && rest.head? == some c then some r.operate
  else (range? r.mode (c :: rest)).map fun taken => r.element 0 (taken - 1)

/-- One step in the head of a set. Minus signs stand for themselves there, and without them so does
a closing bracket. -/
def inHead? (r : Reader) (c : Char) (rest : List Char) : Option Reader :=
  if c == '^' && r.head == .bracket then
    if r.mode.wide then some { r with head := .complement } else none
  else if c == '-' then
    if r.mode.takesCharacters then some { r.element 0 0 with head := .minus } else none
  else if c == ']' && r.head != .minus then
    if r.mode.takesCharacters then some (r.element 0 0) else none
  else { r with head := .whole }.inSet? c rest

/-- One step outside of sets. An opening brace would be a counted repetition, which has a closing
brace. -/
def outsideSets? (r : Reader) (c : Char) (rest : List Char) : Option Reader :=
  if c == '(' then
    let gap := r.mode.gap rest
    r.group? gap (rest.drop gap)
  else if c == ')' then r.closeGroup?
  else if c == '|' then some { r with inside := r.inside.branch }
  else if c == '[' then some r.openSet
  else if "?*+".toList.contains c then r.inside.repeatLast?.map fun inside => { r with inside }
  else if c == '\x7b' then none
  else if c == '.' then if r.mode.wide then some (r.part 0 0) else none
  else if c == '^' || c == '$' then some (r.part 0 0)
  else if c == '\\' then
    match escape? r.mode rest with
    | some (.character _, taken) =>
      if r.mode.takesCharacters then some (r.part 0 taken) else none
    | some (_, taken) => some (r.part 0 taken)
    | none => none
  else if r.mode.takesCharacters then some (r.part 0 0)
  else none

/-- One step: a character that was seen, a gap, or what comes next. -/
def step? (r : Reader) (c : Char) (rest : List Char) : Option Reader :=
  match r.seen with
  | n + 1 => some { r with seen := n }
  | 0 =>
    match r.mode.gap (c :: rest) with
    | n + 1 => some { r with seen := n }
    | 0 =>
      if r.sets.isEmpty then r.outsideSets? c rest
      else if r.head == .whole then r.inSet? c rest
      else r.inHead? c rest

/-- How deep the parts of a pattern may lie inside each other. -/
def depthLimit : Nat := 250

def accepts (r : Reader) : List Char → Bool
  | [] => r.outside.isEmpty && r.sets.isEmpty && r.inside.depth ≤ depthLimit
  | c :: rest =>
    match r.step? c rest with
    | some r => r.accepts rest
    | none => false

end Reader

end Pattern

/-- Whether a text without closing braces is a search pattern. -/
def isPattern (text : List Char) : Bool := Pattern.Reader.start.accepts text

end GraphGate.Text
