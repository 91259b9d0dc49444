import GraphGate.Query.Basic

/-! Ordered-choice parsing that remembers how far into the text any rule was tried in vain. -/
namespace GraphGate.Query

/-- What the grammar accepts but a query may not contain. -/
inductive Fault where
  /-- The `column` characters of the number at `position` leave the range of binary64. -/
  | numberOutOfRange (position : Position) (column : Nat)
  /-- The exponent of the number at `position` is too large before its digit in this column. -/
  | exponentTooLong (position : Position) (column : Nat)
  /-- Too many selection sets inside each other. -/
  | nestedTooDeep

/-- Where parsing stands. -/
structure State where
  rest : List Char
  offset : Nat
  position : Position
  /-- The furthest start of a rule that failed. -/
  furthest : Nat
  /-- The first fault of what was accepted so far. -/
  fault : Option Fault

def Parser (α : Type) := State → Option α × State

namespace Parser

variable {α β : Type}

instance : Monad Parser where
  pure a s := (some a, s)
  bind p f s := match p s with
    | (some a, s') => f a s'
    | (none, s') => (none, s')

def failure : Parser α := fun s => (none, s)

/-- The second choice starts where the first one did. -/
def orElse (p q : Parser α) : Parser α := fun s =>
  match p s with
  | (none, s') => q { s with furthest := s'.furthest }
  | success => success

instance : OrElse (Parser α) := ⟨fun p q => orElse p (q ())⟩

def optional (p : Parser α) : Parser (Option α) := orElse (some <$> p) (pure none)

/-- A named rule: its start counts if it fails. -/
def rule (p : Parser α) : Parser α := fun s =>
  match p s with
  | (none, s') => (none, { s' with furthest := max s'.furthest s.offset })
  | success => success

/-- As often as possible, as long as something is consumed. -/
def many (p : Parser α) : Parser (List α) := fun s => go s
where
  go (s : State) : Option (List α) × State :=
    match p s with
    | (none, s') => (some [], { s with furthest := s'.furthest })
    | (some a, s') =>
      if s'.rest.length < s.rest.length then
        let (more, s'') := go s'
        (more.map (a :: ·), s'')
      else (some [a], s')
  termination_by s.rest.length

def here : Parser Position := fun s => (some s.position, s)

def rest : Parser (List Char) := fun s => (some s.rest, s)

/-- A position further by one character: a line feed starts a line, and a carriage return goes
back to the start of the line. -/
def step (p : Position) (c : Char) : Position :=
  if c = '\n' then ⟨p.line + 1, 1⟩
  else if c = '\r' then ⟨p.line, 1⟩
  else ⟨p.line, p.column + 1⟩

/-- Consumes `n` characters. -/
def take (n : Nat) : Parser (List Char) := fun s =>
  let taken := s.rest.take n
  (some taken, { s with
    rest := s.rest.drop n
    offset := s.offset + taken.length
    position := taken.foldl step s.position })

def literal (word : String) : Parser Unit := do
  if word.toList.isPrefixOf (← rest) then discard (take word.length) else failure

/-- A rule whose inside is invisible: `measure` tells how many characters it takes. -/
def token (measure : List Char → Option Nat) : Parser (List Char) := rule do
  match measure (← rest) with
  | some n => take n
  | none => failure

/-- Fails where `p` succeeds; a rule that succeeds in there counts as tried in vain. -/
def notAt (measure : List Char → Option (List Nat)) : Parser Unit := fun s =>
  match measure s.rest with
  | none => (some (), s)
  | some starts =>
    (none, { s with furthest := starts.foldl (fun far n => max far (s.offset + n)) s.furthest })

/-- Notes a fault unless there is an earlier one. -/
def note (fault : Fault) : Parser Unit := fun s =>
  (some (), { s with fault := s.fault.or (some fault) })

def isLineEnd (c : Char) : Bool := c == '\n' || c == '\r'

def isIgnored (c : Char) : Bool :=
  c == ' ' || c == ',' || c == '\t' || c == '\ufeff' || isLineEnd c

/-- How many characters of blanks, commas and comments are at the front. -/
def ignored (inComment : Bool) : List Char → Nat
  | [] => 0
  | c :: rest =>
    if isLineEnd c then 1 + ignored false rest
    else if inComment then 1 + ignored true rest
    else if isIgnored c then 1 + ignored false rest
    else if c == '#' then 1 + ignored true rest
    else 0

def skip : Parser Unit := fun s => (discard (take (ignored false s.rest))) s

/-- The next part of a sequence, after anything ignored. -/
def next (p : Parser α) : Parser α := do
  skip
  p

def many1 (p : Parser α) : Parser (List α) := do
  let first ← p
  let more ← many (next p)
  return first :: more

end Parser

end GraphGate.Query
