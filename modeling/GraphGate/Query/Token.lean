/-! The words of a query: how many characters each takes at the front of a text. -/
namespace GraphGate.Query.Token

def isNameStart (c : Char) : Bool := c.isAlpha || c == '_'

def isNameChar (c : Char) : Bool := c.isAlphanum || c == '_'

def name : List Char → Option Nat
  | c :: rest => if isNameStart c then some (1 + (rest.takeWhile isNameChar).length) else none
  | [] => none

def digits (cs : List Char) : Option Nat :=
  match (cs.takeWhile Char.isDigit).length with
  | 0 => none
  | n => some n

/-- A whole number: a zero stands alone. -/
def whole : List Char → Option Nat
  | '-' :: '0' :: _ => some 2
  | '-' :: rest => (digits rest).map (1 + ·)
  | '0' :: _ => some 1
  | cs => digits cs

def fraction : List Char → Option Nat
  | '.' :: rest => (digits rest).map (1 + ·)
  | _ => none

def exponent : List Char → Option Nat
  | e :: sign :: rest =>
    if e == 'e' || e == 'E' then
      if sign == '+' || sign == '-' then (digits rest).map (2 + ·)
      else (digits (sign :: rest)).map (1 + ·)
    else none
  | _ => none

/-- A number is not followed by the start of a name. -/
def number (cs : List Char) : Option Nat := do
  let n ← whole cs
  let n := n + ((fraction (cs.drop n)).getD 0)
  let n := n + ((exponent (cs.drop n)).getD 0)
  match cs.drop n with
  | c :: _ => if isNameStart c then none else some n
  | [] => some n

/-- The length of a block string's inside: up to three quotation marks without a backslash. -/
def blockContent : List Char → Nat
  | '\\' :: '"' :: '"' :: '"' :: rest => 4 + blockContent rest
  | '"' :: '"' :: '"' :: _ => 0
  | _ :: rest => 1 + blockContent rest
  | [] => 0

def isHexDigit (c : Char) : Bool :=
  c.isDigit || ('a' ≤ c && c ≤ 'f') || ('A' ≤ c && c ≤ 'F')

/-- Four hexadecimal digits that are no surrogate. -/
def isScalarEscape (a b c d : Char) : Bool :=
  isHexDigit a && isHexDigit b && isHexDigit c && isHexDigit d &&
    !((a == 'd' || a == 'D') && !('0' ≤ b && b ≤ '7'))

def isEscapable (c : Char) : Bool := "\"\\/bfnrt".toList.contains c

/-- The length of an ordinary string's inside. -/
def stringContent : List Char → Nat
  | '\\' :: 'u' :: a :: b :: c :: d :: rest =>
    if isScalarEscape a b c d then 6 + stringContent rest else 0
  | '\\' :: c :: rest => if isEscapable c then 2 + stringContent rest else 0
  | c :: rest =>
    if c == '"' || c == '\\' || c == '\n' || c == '\r' then 0 else 1 + stringContent rest
  | [] => 0

/-- A type after its opening brackets: the name, and the closing brackets with their marks. -/
def typeEnd : Nat → List Char → Option Nat
  | 0, _ => some 0
  | n + 1, ']' :: '!' :: rest => (typeEnd n rest).map (2 + ·)
  | n + 1, ']' :: rest => (typeEnd n rest).map (1 + ·)
  | _, _ => none

def type (cs : List Char) : Option Nat := do
  let opening := (cs.takeWhile (· == '[')).length
  let n ← name (cs.drop opening)
  let n := opening + n
  let n := n + (if (cs.drop n).head? = some '!' then 1 else 0)
  let closing ← typeEnd opening (cs.drop n)
  return n + closing

end GraphGate.Query.Token
