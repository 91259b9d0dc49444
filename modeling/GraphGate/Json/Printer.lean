import GraphGate.Json.Basic

/-! The compact text of a JSON value. -/
namespace GraphGate.Json

def hexDigit (n : Nat) : Char := (Nat.digitChar n)

/-- A character inside quotation marks. -/
def escaped (c : Char) : List Char :=
  if c = '"' then ['\\', '"']
  else if c = '\\' then ['\\', '\\']
  else if c = '\x08' then ['\\', 'b']
  else if c = '\x0c' then ['\\', 'f']
  else if c = '\n' then ['\\', 'n']
  else if c = '\r' then ['\\', 'r']
  else if c = '\t' then ['\\', 't']
  else if c.toNat < 32 then
    ['\\', 'u', '0', '0', hexDigit (c.toNat / 16), hexDigit (c.toNat % 16)]
  else [c]

def quoted (s : String) : List Char := ['"'] ++ s.toList.flatMap escaped ++ ['"']

mutual

def chars : Json → List Char
  | .null => "null".toList
  | .bool true => "true".toList
  | .bool false => "false".toList
  | .num n => n.text
  | .str s => quoted s
  | .arr elements => ['['] ++ elementChars elements ++ [']']
  | .obj fields => ['\x7b'] ++ fieldChars fields ++ ['\x7d']

def elementChars : List Json → List Char
  | [] => []
  | [v] => chars v
  | v :: rest => chars v ++ [','] ++ elementChars rest

def fieldChars : List (String × Json) → List Char
  | [] => []
  | [(k, v)] => quoted k ++ [':'] ++ chars v
  | (k, v) :: rest => quoted k ++ [':'] ++ chars v ++ [','] ++ fieldChars rest

end

/-- The value without any blank, keys in their order. -/
def text (v : Json) : String := String.ofList v.chars

end GraphGate.Json
