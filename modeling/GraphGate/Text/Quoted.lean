import GraphGate.Text.Printable

/-! Escapes that keep a text on one line and every character of it visible. -/
namespace GraphGate.Text

/-- The digits of a number in base sixteen, in small letters and without leading zeros. -/
def hexDigits (n : Nat) : List Char := Nat.toDigits 16 n

/-- The escape `\u` with the code point in braces. -/
def codePointEscape (c : Char) : List Char :=
  ['\\', 'u', '\x7b'] ++ hexDigits c.toNat ++ ['\x7d']

/-- What an escaped text does beyond escaping the backslash, line ends, tabs and unprintable
characters. -/
structure Escaping where
  /-- The single quotation mark gets a backslash. -/
  singleQuote : Bool
  /-- A character that attaches to the one before it is written as its code point. -/
  attaching : Bool

def Escaping.character (e : Escaping) (c : Char) : List Char :=
  if c = '\x00' then ['\\', '0']
  else if c = '\t' then ['\\', 't']
  else if c = '\r' then ['\\', 'r']
  else if c = '\n' then ['\\', 'n']
  else if c = '\\' then ['\\', '\\']
  else if c = '"' then ['\\', '"']
  else if c = '\x27' then if e.singleQuote then ['\\', c] else [c]
  else if e.attaching && extendsGrapheme c then codePointEscape c
  else if isPrintable c then [c]
  else codePointEscape c

def Escaping.text (e : Escaping) (s : String) : String :=
  String.ofList (s.toList.flatMap e.character)

/-- A message inside another message: both quotation marks are escaped. -/
def embedded (s : String) : String := Escaping.text ⟨true, false⟩ s

/-- A text between double quotation marks. -/
def quoted (s : String) : String := "\"" ++ Escaping.text ⟨false, true⟩ s ++ "\""

end GraphGate.Text
