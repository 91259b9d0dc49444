import GraphGate.Query.Literal
import GraphGate.Query.Parser
import GraphGate.Query.Token

/-! The grammar of query documents. Brackets nest at most as deep as the text is long, which is the
`depth` that the nested rules count down. -/
namespace GraphGate.Query.Grammar

open GraphGate.Query.Parser

def name : Parser String := String.ofList <$> token Token.name

/-- A number; one out of range is accepted here and noted as a fault. -/
def number : Parser Number := do
  let position ← here
  let cs ← token Token.number
  match Number.Numeral.scan cs with
  | none => failure
  | some (n, _) =>
    match n.value with
    | .ok value => return value
    | .error 0 => do
      note (.numberOutOfRange position cs.length)
      return .int 0
    | .error (unread + 1) => do
      note (.exponentTooLong position (cs.length - unread))
      return .int 0

def blockString : Parser String := do
  literal "\"\"\""
  let raw ← take (Token.blockContent (← rest))
  literal "\"\"\""
  return String.ofList (blockText raw)

def ordinaryString : Parser String := do
  literal "\""
  let raw ← take (Token.stringContent (← rest))
  literal "\""
  return String.ofList (unescape raw)

def string : Parser String := rule (blockString <|> ordinaryString)

def bool : Parser Bool :=
  rule ((do literal "true"; return true) <|> (do literal "false"; return false))

def null : Parser Unit := rule (literal "null")

/-- The words that are no names of enum values. -/
def reserved (cs : List Char) : Option (List Nat) :=
  if ["true", "false", "null"].any (·.toList.isPrefixOf cs) then some [0] else none

def enum : Parser String := rule do
  notAt reserved
  name

def colon : Parser Unit := next (literal ":")

def variableName : Parser String := rule do
  literal "$"
  next name

/-- A value in which `var` reads the variables. -/
def value {ν : Type} (var : Parser ν) : Nat → Parser (Value ν)
  | 0 => failure
  | depth + 1 =>
    let list := rule do
      literal "["
      let elements ← many (next (value var depth))
      next (literal "]")
      return Value.list elements
    let field := rule do
      let key ← name
      colon
      let v ← next (value var depth)
      return (key, v)
    let object := rule do
      literal "\x7b"
      let fields ← many (next field)
      next (literal "\x7d")
      return Value.object (Table.ofPairs fields)
    rule ((Value.var <$> var) <|> (Value.number <$> number) <|> (Value.string <$> string) <|>
      (Value.bool <$> bool) <|> (do null; return .null) <|> (Value.enum <$> enum) <|> list <|>
      object)

def argument (depth : Nat) : Parser Argument := rule do
  let name ← name
  colon
  skip
  let position ← here
  let value ← value variableName depth
  return ⟨name, position, value⟩

def arguments (depth : Nat) : Parser (List Argument) := rule do
  literal "("
  let arguments ← next (many1 (argument depth))
  next (literal ")")
  return arguments

def directive (depth : Nat) : Parser Directive := rule do
  let position ← here
  literal "@"
  let name ← next name
  let arguments ← next (optional (arguments depth))
  return ⟨position, name, arguments.getD []⟩

def directives (depth : Nat) : Parser (List Directive) := do
  let found ← optional (rule (many1 (directive depth)))
  return found.getD []

/-- How many characters the word and the blanks after it take. -/
def onAndBlanks (cs : List Char) : Option Nat :=
  match cs with
  | 'o' :: 'n' :: rest =>
    match (rest.takeWhile isIgnored).length with
    | 0 => none
    | n => some (2 + n)
  | _ => none

def typeCondition : Parser String := rule do
  match onAndBlanks (← rest) with
  | none => failure
  | some n => do
    discard (take n)
    name

/-- Where a type condition and its name start, if there is one. -/
def condition (cs : List Char) : Option (List Nat) := do
  let n ← onAndBlanks cs
  discard (Token.name (cs.drop n))
  return [0, n]

def fragmentSpread (depth : Nat) : Parser Selection := rule do
  let position ← here
  literal "..."
  next (notAt condition)
  let name ← next name
  let directives ← next (directives depth)
  return .spread ⟨position, name, directives⟩

def inlineFragment (depth : Nat) (selections : Parser (List Selection)) : Parser Selection :=
  rule do
    let position ← here
    literal "..."
    let condition ← next (optional typeCondition)
    let directives ← next (directives depth)
    let selections ← next selections
    return .inline ⟨position, condition, directives⟩ selections

def aliasName : Parser String := rule do
  let name ← name
  colon
  return name

def field (depth : Nat) (selections : Parser (List Selection)) : Parser Selection := rule do
  let position ← here
  let aliasName ← optional aliasName
  let name ← next name
  let arguments ← next (optional (arguments depth))
  let directives ← next (directives depth)
  let selections ← next (optional selections)
  return .field ⟨position, aliasName, name, arguments.getD [], directives⟩ (selections.getD [])

/-- How many selection sets may be inside that of the operation or fragment. -/
def nestingLimit : Nat := 64

/-- A selection set that lies inside `level` others. -/
def selectionSet (level : Nat) : Nat → Parser (List Selection)
  | 0 => failure
  | depth + 1 => rule do
    literal "\x7b"
    if nestingLimit < level then note .nestedTooDeep
    let nested := selectionSet (level + 1) depth
    let selections ← next (many1 (rule
      (field depth nested <|> inlineFragment depth nested <|> fragmentSpread depth)))
    next (literal "\x7d")
    return selections

def variableDefinition (depth : Nat) : Parser VariableDefinition := rule do
  let (position, name) ← rule do
    literal "$"
    skip
    return (← here, ← name)
  colon
  let type ← next (token Token.type)
  discard (next (directives depth))
  let default ← next (optional (rule do
    literal "="
    next (value failure depth)))
  return ⟨position, name, .ofText (String.ofList type), default⟩

def variableDefinitions (depth : Nat) : Parser (List VariableDefinition) := rule do
  literal "("
  let definitions ← many (next (variableDefinition depth))
  next (literal ")")
  return definitions

def operationType : Parser OperationType := rule
  ((do literal "query"; return .query) <|> (do literal "mutation"; return .mutation) <|>
    (do literal "subscription"; return .subscription))

/-- What a document consists of. -/
inductive Definition where
  | operation (name : Option String) (operation : Operation)
  | fragment (name : String) (fragment : Fragment)

def namedOperation (depth : Nat) : Parser Definition := rule do
  let position ← here
  let type ← operationType
  let name ← next (optional name)
  let declarations ← next (optional (variableDefinitions depth))
  discard (next (directives depth))
  let selections ← next (selectionSet 0 depth)
  return .operation name ⟨position, type, declarations.getD [], selections⟩

def bareOperation (depth : Nat) : Parser Definition := do
  let position ← here
  let selections ← selectionSet 0 depth
  return .operation none ⟨position, .query, [], selections⟩

def operationDefinition (depth : Nat) : Parser Definition :=
  rule (namedOperation depth <|> bareOperation depth)

def fragmentDefinition (depth : Nat) : Parser Definition := rule do
  let position ← here
  literal "fragment"
  let name ← next name
  let condition ← next typeCondition
  discard (next (directives depth))
  let selections ← next (selectionSet 0 depth)
  return .fragment name ⟨position, condition, selections⟩

def endOfText : Parser Unit := rule do
  if (← rest).isEmpty then return () else failure

def document (depth : Nat) : Parser (List Definition) := do
  let definitions ← next (many1 (rule (operationDefinition depth <|> fragmentDefinition depth)))
  next endOfText
  return definitions

/-- The definitions of a text and where reading it ended. -/
def read (text : List Char) : Option (List Definition) × State :=
  document (text.length + 1) ⟨text, 0, ⟨1, 1⟩, 0, none⟩

end GraphGate.Query.Grammar
