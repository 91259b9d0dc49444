/-! Reading bytes as text: each longest start of a character that breaks off counts as one mark. -/
namespace GraphGate.Text.Utf8

/-- The bytes that may follow a first byte: the range of the second, and how many there are in
all. -/
structure Lead where
  low : Nat
  high : Nat
  length : Nat

/-- The well-formed first bytes of characters beyond the seven-bit ones. -/
def lead? (b : Nat) : Option Lead :=
  if 0xC2 ≤ b && b ≤ 0xDF then some ⟨0x80, 0xBF, 1⟩
  else if b == 0xE0 then some ⟨0xA0, 0xBF, 2⟩
  else if b == 0xED then some ⟨0x80, 0x9F, 2⟩
  else if 0xE1 ≤ b && b ≤ 0xEF then some ⟨0x80, 0xBF, 2⟩
  else if b == 0xF0 then some ⟨0x90, 0xBF, 3⟩
  else if 0xF1 ≤ b && b ≤ 0xF3 then some ⟨0x80, 0xBF, 3⟩
  else if b == 0xF4 then some ⟨0x80, 0x8F, 3⟩
  else none

/-- Where reading stands between two bytes. -/
inductive State where
  /-- Between characters. -/
  | start
  /-- Inside one: what its bytes so far say, the range of the next byte, and how many follow it. -/
  | inside (value low high more : Nat)

/-- One byte from between characters; a byte that starts none is a mark of its own. -/
def first (b : Nat) : List (Option Char) × State :=
  if b < 0x80 then ([some (Char.ofNat b)], .start)
  else match lead? b with
    | some l => ([], .inside (b % Nat.pow 2 (6 - l.length)) l.low l.high (l.length - 1))
    | none => ([none], .start)

/-- One byte further: the characters completed by it, `none` standing for a malformed stretch. -/
def step : State → Nat → List (Option Char) × State
  | .start, b => first b
  | .inside value low high more, b =>
    if low ≤ b && b ≤ high then
      let value := value * 64 + b % 64
      match more with
      | 0 => ([some (Char.ofNat value)], .start)
      | k + 1 => ([], .inside value 0x80 0xBF k)
    else
      let (out, next) := first b
      (none :: out, next)

/-- The characters of a text, with `none` for each malformed stretch. -/
def scan : State → List Nat → List (Option Char)
  | .start, [] => []
  | .inside .., [] => [none]
  | state, b :: rest =>
    let (out, next) := step state b
    out ++ scan next rest

def characters (bytes : List UInt8) : List (Option Char) :=
  scan .start (bytes.map UInt8.toNat)

/-- The text, if every byte belongs to a character. -/
def decode? (bytes : List UInt8) : Option String :=
  ((characters bytes).mapM id).map String.ofList

/-- The text with U+FFFD for each malformed stretch. -/
def decodeLossy (bytes : List UInt8) : String :=
  String.ofList ((characters bytes).map (·.getD '\ufffd'))

end GraphGate.Text.Utf8
