import GraphGate.Text.Pattern.Mode

/-! Escapes, and what may stand in a set of characters: how many characters each takes at the front
of a text. -/
namespace GraphGate.Text.Pattern

/-- What a backslash and the characters after it stand for. -/
inductive Escape where
  | character (code : Nat)
  | set
  | place

def hexDigit? (c : Char) : Option Nat :=
  if c.isDigit then some (c.toNat - 48)
  else if 'a' ≤ c && c ≤ 'f' then some (c.toNat - 87)
  else if 'A' ≤ c && c ≤ 'F' then some (c.toNat - 55)
  else none

/-- The number that some hexadecimal digits continue, and how many characters they take. -/
def hexDigits? (mode : Mode) : Nat → Nat → List Char → Option (Nat × Nat)
  | 0, value, _ => some (value, 0)
  | count + 1, value, text =>
    let gap := mode.gap text
    match text.drop gap with
    | [] => none
    | c :: rest => do
      let (value, taken) ← hexDigits? mode count (value * 16 + (← hexDigit? c)) rest
      return (value, gap + 1 + taken)

/-- The character with the number that some hexadecimal digits behind a letter stand for. -/
def coded? (mode : Mode) (count : Nat) (text : List Char) : Option (Escape × Nat) := do
  let (n, taken) ← hexDigits? mode count 0 text
  if n.isValidChar then some (.character n, 1 + taken) else none

/-- The control characters that have a letter, and their numbers. -/
def controls : List (Char × Nat) :=
  [('a', 7), ('t', 9), ('n', 10), ('v', 11), ('f', 12), ('r', 13)]

/-- What a character behind a backslash stands for on its own. Every mark of the basic alphabet but
the angle brackets stands for itself. Where a word begins and ends, and what is a digit, a blank or
a part of a word, is known in the basic alphabet only. -/
def oneLetter? (mode : Mode) (c : Char) : Option Escape :=
  match controls.lookup c with
  | some n => some (.character n)
  | none =>
    if "Az".toList.contains c then some .place
    else if "bB<>".toList.contains c then if mode.wide then none else some .place
    else if "dsw".toList.contains c then if mode.wide then none else some .set
    else if c.toNat < 128 && !c.isAlphanum then some (.character c.toNat)
    else none

/-- An escape behind its backslash, and how many characters it takes. Two digits stand for a
byte. -/
def escape? (mode : Mode) : List Char → Option (Escape × Nat)
  | [] => none
  | 'x' :: rest =>
    match coded? mode 2 rest with
    | some (.character n, taken) =>
      if mode.wide || n < 128 then some (.character n, taken) else none
    | _ => none
  | 'u' :: rest => coded? mode 4 rest
  | 'U' :: rest => coded? mode 8 rest
  | c :: _ => (oneLetter? mode c).map (·, 1)

/-- One element of a set, and how many characters it takes. -/
def element? (mode : Mode) : List Char → Option (Escape × Nat)
  | [] => none
  | '\\' :: rest => do
    match ← escape? mode rest with
    | (.character n, taken) => checked n (1 + taken)
    | (.set, taken) => some (.set, 1 + taken)
    | (.place, _) => none
  | c :: _ => checked c.toNat 1
where
  checked (n taken : Nat) : Option (Escape × Nat) :=
    if mode.takesCharacters && (mode.wide || n < 128) then some (.character n, taken) else none

/-- The length of an element of a set, or of a range between two characters. -/
def range? (mode : Mode) (text : List Char) : Option Nat := do
  let (first, taken) ← element? mode text
  let before := mode.gap (text.drop taken)
  match text.drop (taken + before) with
  | '-' :: rest =>
    if mode.ahead? rest == some ']' || mode.ahead? rest == some '-' then some taken
    else
      let behind := mode.gap rest
      match first, ← element? mode (rest.drop behind) with
      | .character low, (.character high, more) =>
        if low ≤ high then some (taken + before + 1 + behind + more) else none
      | _, _ => none
  | _ => some taken

def setNames : List String :=
  ["alnum", "alpha", "ascii", "blank", "cntrl", "digit", "graph", "lower", "print", "punct",
    "space", "upper", "word", "xdigit"]

/-- The length of a set's name between colons behind its bracket, and whether it is the complement
that is meant. -/
def namedSet? : List Char → Option (Nat × Bool)
  | ':' :: rest =>
    let (negated, rest) := match rest with
      | '^' :: rest => (true, rest)
      | _ => (false, rest)
    let name := rest.takeWhile (· != ':')
    match rest.drop name.length with
    | ':' :: ']' :: _ =>
      if setNames.contains (String.ofList name) then
        some (name.length + (if negated then 4 else 3), negated)
      else none
    | _ => none
  | _ => none

end GraphGate.Text.Pattern
