/-! The fewest decimal digits that read back as a given binary64 number. -/
namespace GraphGate.Decimal

/-- How many digits a number has in base ten. -/
def digitCount (n : Nat) : Nat := (Nat.toDigits 10 n).length

/-- The decimal `digits * 10 ^ exponent`. -/
structure Scaled where
  digits : Nat
  exponent : Int
deriving DecidableEq

/-- The same decimal with as few digits as possible. -/
def Scaled.reduced (d : Scaled) : Scaled :=
  if h : d.digits ≠ 0 ∧ d.digits % 10 = 0 then Scaled.reduced ⟨d.digits / 10, d.exponent + 1⟩ else d
termination_by d.digits
decreasing_by show d.digits / 10 < d.digits; omega

/-- The positive numbers that round to one binary64 number: `value / unit` itself, and the ends of
the stretch around it. -/
structure Rounding where
  value : Nat
  low : Nat
  high : Nat
  unit : Nat
  closed : Bool

/-- The stretch of the number with mantissa `m` and exponent `q`; below a power of two the
neighbour is half as far away. -/
def Rounding.around (m : Nat) (q : Int) (powerOfTwo : Bool) : Rounding :=
  let up := Nat.pow 2 (q - 2).toNat
  { value := 4 * m * up
    low := (4 * m - if powerOfTwo then 1 else 2) * up
    high := (4 * m + 2) * up
    unit := Nat.pow 2 (2 - q).toNat
    closed := m % 2 == 0 }

/-- The stretch of a positive finite number given by its bits. -/
def Rounding.ofBits (bits : Nat) : Rounding :=
  let fraction : Nat := bits % Nat.pow 2 52
  let biased : Nat := bits / Nat.pow 2 52 % Nat.pow 2 11
  if biased = 0 then around fraction (-1074) false
  else around (Nat.pow 2 52 + fraction) ((biased : Int) - 1075) (fraction == 0 && biased != 1)

/-- The least `e` with the number below `10 ^ e`. -/
def Rounding.magnitude (r : Rounding) : Int :=
  if r.unit ≤ r.value then digitCount (r.value / r.unit)
  else 1 - digitCount ((r.unit + r.value - 1) / r.value - 1)

/-- The point of the grid `10 ^ k` next to the number that reads back as it, if there is one. -/
def Rounding.pointOn? (r : Rounding) (k : Int) : Option Scaled :=
  let up := Nat.pow 10 (-k).toNat
  let step := r.unit * Nat.pow 10 k.toNat
  let inside := fun c : Nat =>
    if r.closed then r.low * up ≤ c * step && c * step ≤ r.high * up
    else r.low * up < c * step && c * step < r.high * up
  let below := r.value * up / step
  let distanceBelow := r.value * up - below * step
  let distanceAbove := (below + 1) * step - r.value * up
  match inside below, inside (below + 1) with
  | false, false => none
  | true, false => some ⟨below, k⟩
  | false, true => some ⟨below + 1, k⟩
  | true, true =>
    if distanceBelow < distanceAbove || (distanceBelow == distanceAbove && below % 2 == 0) then
      some ⟨below, k⟩
    else some ⟨below + 1, k⟩

/-- Seventeen digits always suffice; the first grid with a point wins. -/
def Rounding.shortest (r : Rounding) : Scaled :=
  let exponents := (List.range 17).map fun n => r.magnitude - (n + 1 : Nat)
  match exponents.findSome? r.pointOn? with
  | some d => d.reduced
  | none => ⟨r.value / r.unit, 0⟩

end GraphGate.Decimal
