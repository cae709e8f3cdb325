import PacketRpc.Number.Binary

/-!
# Shortest decimal text

A float is shown by the fewest significant digits that read back as the same float, and of those
the ones nearest to it, the greater of two equally near. A decimal reads back when it lies in the
interval of numbers that round to the float, whose ends count only for an even mantissa. The text
is always positional: neither an exponent nor a point without digits after it.
-/

namespace PacketRpc.Number

/-- The number of decimal digits of `n`. -/
def digitCount (n : Nat) : Nat :=
  if h : n < 10 then 1 else digitCount (n / 10) + 1
termination_by n
decreasing_by exact Nat.div_lt_self (by omega) (by omega)

/-- The number `digits * 10 ^ exponent`. -/
structure Decimal where
  digits : Nat
  exponent : Int
  deriving DecidableEq, Repr

/-- A positive number `value / unit` with the ends of the interval that rounds to it, in the same
unit. -/
structure Interval where
  low : Nat
  value : Nat
  high : Nat
  unit : Nat
  /-- Whether the ends themselves round to the number. -/
  closed : Bool
  deriving DecidableEq, Repr

namespace Interval

/-- The interval around `mantissa * 2 ^ scale`. Neighbours are one place away, and half a place
below a power of two; quarters of a place are whole numbers here. -/
def around (mantissa : Nat) (scale : Int) (narrowBelow : Bool) : Interval :=
  let factor := Nat.pow 2 (scale - 2).toNat
  { low := (4 * mantissa - if narrowBelow then 1 else 2) * factor
    value := 4 * mantissa * factor
    high := (4 * mantissa + 2) * factor
    unit := Nat.pow 2 (2 - scale).toNat
    closed := mantissa % 2 == 0 }

/-- The greatest `k` with `10 ^ k` at most the number. -/
def magnitude (i : Interval) : Int :=
  if i.unit ≤ i.value then (digitCount (i.value / i.unit) : Int) - 1
  else -(digitCount ((i.unit - 1) / i.value) : Int)

/-- The multiple of `10 ^ exponent` in the interval that is nearest to the number, sought among its
two neighbours on that grid. -/
def nearest? (i : Interval) (exponent : Int) : Option Decimal :=
  let step := Nat.pow 10 exponent.toNat * i.unit
  let stretch := Nat.pow 10 (-exponent).toNat
  let value := i.value * stretch
  let below := value / step
  let holds (n : Nat) : Bool :=
    if i.closed then i.low * stretch ≤ n * step && n * step ≤ i.high * stretch
    else i.low * stretch < n * step && n * step < i.high * stretch
  match holds below, holds (below + 1) with
  | true, true =>
    if value - below * step < (below + 1) * step - value then some ⟨below, exponent⟩
    else some ⟨below + 1, exponent⟩
  | true, false => some ⟨below, exponent⟩
  | false, true => some ⟨below + 1, exponent⟩
  | false, false => none

/-- Tries the grid of `10 ^ exponent` and then `more` finer ones. -/
def shortestFrom (i : Interval) (exponent : Int) : (more : Nat) → Decimal
  | 0 => (i.nearest? exponent).getD ⟨0, 0⟩
  | more + 1 =>
    match i.nearest? exponent with
    | some d => d
    | none => shortestFrom i (exponent - 1) more

/-- The shortest decimal in the interval; seventeen digits are enough for double precision. -/
def shortest (i : Interval) : Decimal := i.shortestFrom i.magnitude 16

end Interval

/-- Zeros in a row. -/
def zeros (n : Nat) : String := String.ofList (List.replicate n '0')

namespace Decimal

/-- Moves trailing zeros from the digits to the exponent, at most `fuel` of them. -/
def trim (d : Decimal) : (fuel : Nat) → Decimal
  | 0 => d
  | fuel + 1 =>
    if d.digits % 10 = 0 ∧ d.digits ≠ 0 then trim ⟨d.digits / 10, d.exponent + 1⟩ fuel else d

/-- Positional notation. -/
def text (d : Decimal) : String :=
  let d := d.trim (digitCount d.digits)
  let digits := d.digits.repr
  let places := (-d.exponent).toNat
  if places = 0 then digits ++ zeros d.exponent.toNat
  else if places < digits.length then
    (digits.take (digits.length - places)).toString ++ "."
      ++ (digits.drop (digits.length - places)).toString
  else "0." ++ zeros (places - digits.length) ++ digits

end Decimal

/-- The text of a float. -/
def Value.text : Value → String
  | .nan => "NaN"
  | .infinite negative => if negative then "-inf" else "inf"
  | .finite negative mantissa scale narrowBelow =>
    let sign := if negative then "-" else ""
    if mantissa = 0 then sign ++ "0"
    else sign ++ (Interval.around mantissa scale narrowBelow).shortest.text

end PacketRpc.Number

namespace PacketRpc

/-- The shortest text that reads back as the float. -/
def Binary32.text (x : Binary32) : String := x.decode.text

/-- The shortest text that reads back as the double. -/
def Binary64.text (x : Binary64) : String := x.decode.text

end PacketRpc
