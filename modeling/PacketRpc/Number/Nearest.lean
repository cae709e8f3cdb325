import PacketRpc.Number.Shortest
import PacketRpc.Number.Digits

/-!
# Reading floats

A decimal becomes the float nearest to it, of two equally near the one with an even mantissa.
Numbers beyond the greatest float become infinite, as if the exponents went on.
-/

namespace PacketRpc.Number

/-- The whole number nearest to `n / d`, the even one of two. -/
def nearestWhole (n d : Nat) : Nat :=
  let q := n / d
  let twice := 2 * (n % d)
  if twice < d ∨ (twice = d ∧ q % 2 = 0) then q else q + 1

/-- The greatest `k` with `2 ^ k` at most `n / d`, for positive numbers. -/
def binaryMagnitude (n d : Nat) : Int :=
  let k := (n.log2 : Int) - d.log2
  if d * Nat.pow 2 k.toNat ≤ n * Nat.pow 2 (-k).toNat then k else k - 1

namespace Format

/-- The bits of the positive infinity. -/
def infinity (f : Format) : Nat := f.maxExponent * Nat.pow 2 f.fractionBits

/-- The bits of the float nearest to the positive number `n / d`. -/
def nearest (f : Format) (n d : Nat) : Nat :=
  let scale := max (binaryMagnitude n d - f.fractionBits) f.minScale
  let mantissa := nearestWhole (n * Nat.pow 2 (-scale).toNat) (d * Nat.pow 2 scale.toNat)
  min ((scale - f.minScale).toNat * Nat.pow 2 f.fractionBits + mantissa) f.infinity

/-- The bits of the float nearest to a decimal. A decimal whose magnitude is far outside the format
is not worked out. -/
def ofDecimal (f : Format) (d : Decimal) : Nat :=
  let magnitude := (digitCount d.digits : Int) + d.exponent
  if d.digits = 0 ∨ magnitude < -(Nat.pow 2 f.exponentBits : Int) then 0
  else if (Nat.pow 2 f.exponentBits : Int) < magnitude then f.infinity
  else f.nearest (d.digits * Nat.pow 10 d.exponent.toNat) (Nat.pow 10 (-d.exponent).toNat)

/-- The bits of a NaN. -/
def nan (f : Format) : Nat := f.infinity + Nat.pow 2 (f.fractionBits - 1)

/-- The bit of the sign. -/
def signBit (f : Format) : Nat := Nat.pow 2 (f.fractionBits + f.exponentBits)

end Format

/-- A whole number with a sign before it, which may be left out if it is positive. -/
def signed? (cs : List Char) : Option Int :=
  match cs with
  | '-' :: cs => (Digits.whole? 10 cs).map fun n => -(n : Int)
  | '+' :: cs => (Digits.whole? 10 cs).map fun n => (n : Int)
  | cs => (Digits.whole? 10 cs).map fun n => (n : Int)

/-- What follows a point: the digits, and what comes after them. Without a point there are none. -/
def fraction (cs : List Char) : List Nat × List Char :=
  match cs with
  | '.' :: cs => Digits.leading 10 cs
  | cs => ([], cs)

/-- The exponent that fills the rest of a text, after a letter `e`; without one it is zero. -/
def exponent? (cs : List Char) : Option Int :=
  match cs with
  | [] => some 0
  | c :: cs => if c = 'e' ∨ c = 'E' then signed? cs else none

/-- The decimal that a text stands for: digits with a point among them or at an end, and perhaps an
exponent. -/
def Decimal.ofText? (cs : List Char) : Option Decimal := do
  let (whole, rest) := Digits.leading 10 cs
  let (places, rest) := fraction rest
  let digits := whole ++ places
  let exponent ← exponent? rest
  if digits.isEmpty then none
  return ⟨Digits.number 10 digits, exponent - places.length⟩

/-- The bits that a text without a sign stands for: a decimal, or the name of an infinity or a NaN
in any mix of cases. -/
def Format.ofText? (f : Format) (cs : List Char) : Option Nat :=
  match String.ofList (cs.map Char.toLower) with
  | "inf" | "infinity" => some f.infinity
  | "nan" => some f.nan
  | _ => (Decimal.ofText? cs).map f.ofDecimal

end PacketRpc.Number

namespace PacketRpc

/-- The float that a text stands for. -/
def Binary32.ofText? (text : String) : Option Binary32 :=
  let f := Number.Format.binary32
  let bits := match text.toList with
    | '-' :: cs => (f.ofText? cs).map (f.signBit + ·)
    | '+' :: cs => f.ofText? cs
    | cs => f.ofText? cs
  bits.map fun b => ⟨UInt32.ofNat b⟩

end PacketRpc
