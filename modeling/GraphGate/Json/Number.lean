import GraphGate.Decimal.Shortest

/-! JSON numbers: whole numbers are exact as far as 64 bits go, all others are binary64. -/
namespace GraphGate

inductive Number where
  | int (value : Int)
  | float (value : Float)
deriving DecidableEq

namespace Number

/-- Equality of values: a whole number never equals a fraction, and both zeros are equal. -/
def same : Number → Number → Bool
  | .int a, .int b => a == b
  | .float a, .float b => a == b
  | _, _ => false

/-- The written parts of a number. -/
structure Numeral where
  negative : Bool
  whole : List Char
  fraction : Option (List Char)
  /-- The exponent's sign (true for minus) and digits. -/
  exponent : Option (Bool × List Char)

/-- The digits at the front, if there are any. -/
def digits? (cs : List Char) : Option (List Char × List Char) :=
  match cs.takeWhile Char.isDigit with
  | [] => none
  | ds => some (ds, cs.dropWhile Char.isDigit)

/-- A zero stands alone before the point. -/
def whole? : List Char → Option (List Char × List Char)
  | '0' :: rest => some (['0'], rest)
  | cs => digits? cs

def fraction? : List Char → Option (Option (List Char) × List Char)
  | '.' :: rest => (digits? rest).map (Prod.map some id)
  | cs => some (none, cs)

def exponent? : List Char → Option (Option (Bool × List Char) × List Char)
  | 'e' :: '-' :: rest | 'E' :: '-' :: rest =>
    (digits? rest).map (Prod.map (fun ds => some (true, ds)) id)
  | 'e' :: '+' :: rest | 'E' :: '+' :: rest | 'e' :: rest | 'E' :: rest =>
    (digits? rest).map (Prod.map (fun ds => some (false, ds)) id)
  | cs => some (none, cs)

/-- The numeral at the front of a text and what follows it. -/
def Numeral.scan (cs : List Char) : Option (Numeral × List Char) :=
  let (negative, unsigned) := match cs with
    | '-' :: rest => (true, rest)
    | _ => (false, cs)
  do
    let (whole, rest) ← whole? unsigned
    let (fraction, rest) ← fraction? rest
    let (exponent, rest) ← exponent? rest
    return (⟨negative, whole, fraction, exponent⟩, rest)

def digitValue (c : Char) : Nat := c.toNat - '0'.toNat

/-- Appends digits to `n` as long as the result stays below `limit`, and gives the others back. -/
def gather (limit : Nat) (n : Nat) : List Char → Nat × List Char
  | [] => (n, [])
  | d :: ds =>
    if n * 10 + digitValue d < limit then gather limit (n * 10 + digitValue d) ds
    else (n, d :: ds)

def tenTo (n : Nat) : Float := Float.ofScientific 1 false n

/-- Division by a power of ten, in steps of at most `10 ^ 308`. -/
def scaleDown (x : Float) (n : Nat) : Float :=
  if n ≤ 308 then x / tenTo n
  else if x == 0 then x
  else scaleDown (x / tenTo 308) (n - 308)
termination_by n

/-- `significand * 10 ^ exponent` in binary64 arithmetic, or `none` beyond its range. -/
def scale? (significand : Nat) (exponent : Int) : Option Float :=
  let x := significand.toUInt64.toFloat
  match exponent with
  | .ofNat n =>
    if n ≤ 308 then
      let scaled := x * tenTo n
      if scaled.isInf then none else some scaled
    else if x == 0 then some x else none
  | .negSucc n => some (scaleDown x (n + 1))

namespace Numeral

/-- The fraction's digits after those of the whole part, as far as they fit into 64 bits, and the
power of ten that belongs to them. Digits that do not fit are dropped. -/
def significand (n : Numeral) : Nat × Int :=
  let (significand, dropped) := gather (Nat.pow 2 64) 0 n.whole
  match n.fraction with
  | none => (significand, dropped.length)
  | some ds =>
    let (significand, rest) := gather (Nat.pow 2 64) significand ds
    (significand, dropped.length - (ds.length - rest.length : Nat))

def signed (n : Numeral) (x : Float) : Number := .float (if n.negative then -x else x)

/-- The number beyond the 64 bits of whole numbers, or with a fraction or an exponent. The error
of a number out of the range of binary64 tells how many digits of the exponent were not looked at:
those after the one that takes the exponent itself out of the range of 32 bits. -/
def float (n : Numeral) : Except Nat Number :=
  let (significand, scale) := n.significand
  match n.exponent with
  | none => ((scale? significand scale).map n.signed).getDM (.error 0)
  | some (below, ds) =>
    match gather (Nat.pow 2 31) 0 ds with
    | (e, []) =>
      ((scale? significand (if below then scale - e else scale + e)).map n.signed).getDM
        (.error 0)
    | (_, rest) =>
      if significand == 0 || below then .ok (n.signed 0) else .error (rest.length - 1)

/-- Without fraction and exponent a number is whole if it fits into 64 bits, with or without sign;
minus zero does not. -/
def value (n : Numeral) : Except Nat Number :=
  match n.fraction, n.exponent with
  | none, none =>
    match gather (Nat.pow 2 64) 0 n.whole with
    | (m, []) =>
      if !n.negative then .ok (.int m)
      else if 0 < m && m ≤ Nat.pow 2 63 then .ok (.int (-m))
      else n.float
    | _ => n.float
  | _, _ => n.float

end Numeral

/-- The text of a decimal: with a point between `10 ^ -5` and `10 ^ 16`, else with an exponent. -/
def decimalText (d : Decimal.Scaled) : List Char :=
  let ds := Nat.toDigits 10 d.digits
  let e := d.exponent + ds.length
  if -5 < e && e ≤ 0 then
    ['0', '.'] ++ List.replicate (-e).toNat '0' ++ ds
  else if 0 < e && e ≤ 16 then
    let n := e.toNat
    if ds.length ≤ n then ds ++ List.replicate (n - ds.length) '0' ++ ['.', '0']
    else ds.take n ++ ['.'] ++ ds.drop n
  else
    let power := e - 1
    ds.take 1 ++ (if ds.length ≤ 1 then [] else '.' :: ds.drop 1) ++
      ['e', if power < 0 then '-' else '+'] ++ Nat.toDigits 10 power.natAbs

/-- The shortest text of a finite binary64 number. -/
def floatText (x : Float) : List Char :=
  let bits := x.toBits.toNat
  let sign := if bits < Nat.pow 2 63 then [] else ['-']
  let magnitude := bits % Nat.pow 2 63
  sign ++ if magnitude = 0 then ['0', '.', '0']
    else decimalText (Decimal.Rounding.ofBits magnitude).shortest

def text : Number → List Char
  | .int value => (toString value).toList
  | .float value => floatText value

end Number

end GraphGate
