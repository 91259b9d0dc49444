import GraphGate.Json.Reader

/-! The text that a string in a query stands for. -/
namespace GraphGate.Query

/-- Replaces the escapes of an ordinary string. -/
def unescape : List Char → List Char
  | '\\' :: 'u' :: a :: b :: c :: d :: rest =>
    Char.ofNat ((Json.unit? a b c d).getD 0) :: unescape rest
  | '\\' :: c :: rest => (Json.simpleEscape? c).getD c :: unescape rest
  | c :: rest => c :: unescape rest
  | [] => []

/-- The lines between line ends, which are CRLF, CR or LF. -/
def lines : List Char → List (List Char)
  | [] => [[]]
  | '\r' :: '\n' :: rest => [] :: lines rest
  | '\r' :: rest => [] :: lines rest
  | '\n' :: rest => [] :: lines rest
  | c :: rest =>
    match lines rest with
    | [] => [[c]]
    | line :: more => (c :: line) :: more

def isIndent (c : Char) : Bool := c == '\t' || c == ' '

def hasContent (line : List Char) : Bool := line.any (!isIndent ·)

/-- The least indent of the lines after the first that have content. -/
def commonIndent : List (List Char) → Nat
  | [] => 0
  | _ :: rest =>
    ((rest.filter hasContent).map fun line => (line.takeWhile isIndent).length).min?.getD 0

/-- Removes the common indent from every line after the first that is long enough. -/
def dedent (ls : List (List Char)) : List (List Char) :=
  let n := commonIndent ls
  match ls with
  | [] => []
  | first :: rest =>
    first :: rest.map fun line => if n ≤ line.length then line.drop n else line

/-- The lines from the first to the last with content. -/
def contentful (ls : List (List Char)) : List (List Char) :=
  ((ls.dropWhile (!hasContent ·)).reverse.dropWhile (!hasContent ·)).reverse

/-- A block string: indents go, blank lines at both ends go, and escapes stay. -/
def blockText (raw : List Char) : List Char :=
  List.intercalate ['\n'] (contentful (dedent (lines raw)))

end GraphGate.Query
