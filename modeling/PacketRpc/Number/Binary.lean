/-!
# Binary floating point numbers

Floats travel and compare as their IEEE 754 bits, so that every bit pattern survives, payloads of
NaNs included. `Format` gives the layout of a width; `Format.decode` says which number the bits
stand for.
-/

namespace PacketRpc

/-- A single-precision number, held as its bits. -/
structure Binary32 where
  bits : UInt32
  deriving DecidableEq, Repr, Inhabited

/-- A double-precision number, held as its bits. -/
structure Binary64 where
  bits : UInt64
  deriving DecidableEq, Repr, Inhabited

namespace Number

/-- The layout of a binary format: widths of the fraction and of the exponent. -/
structure Format where
  fractionBits : Nat
  exponentBits : Nat
  deriving DecidableEq, Repr

namespace Format

/-- Single precision. -/
def binary32 : Format := ⟨23, 8⟩

/-- Double precision. -/
def binary64 : Format := ⟨52, 11⟩

/-- What the exponent field holds for infinities and NaNs. -/
def maxExponent (f : Format) : Nat := Nat.pow 2 f.exponentBits - 1

/-- The power of two that the last place of the smallest numbers stands for. -/
def minScale (f : Format) : Int := 2 - (Nat.pow 2 (f.exponentBits - 1) : Int) - f.fractionBits

end Format

/-- What the bits of a float stand for. -/
inductive Value
  | nan
  | infinite (negative : Bool)
  /-- The number `mantissa * 2 ^ scale`, with its sign. `narrowBelow` marks the powers of two
  whose lower neighbour is only half a place away. -/
  | finite (negative : Bool) (mantissa : Nat) (scale : Int) (narrowBelow : Bool)
  deriving DecidableEq, Repr

/-- Splits bits into sign, exponent and fraction. -/
def Format.decode (f : Format) (bits : Nat) : Value :=
  let fraction := bits % Nat.pow 2 f.fractionBits
  let exponent := bits / Nat.pow 2 f.fractionBits % Nat.pow 2 f.exponentBits
  let negative := bits / Nat.pow 2 (f.fractionBits + f.exponentBits) % 2 == 1
  if exponent = f.maxExponent then
    if fraction = 0 then .infinite negative else .nan
  else if exponent = 0 then
    .finite negative fraction f.minScale false
  else
    .finite negative (Nat.pow 2 f.fractionBits + fraction) (f.minScale + (exponent - 1 : Nat))
      (fraction == 0 && exponent != 1)

/-- True of both zeros. -/
def Value.isZero : Value → Bool
  | .finite _ 0 _ _ => true
  | _ => false

end Number

namespace Binary32

/-- The number a float stands for. -/
def decode (x : Binary32) : Number.Value := Number.Format.binary32.decode x.bits.toNat

/-- Equality of numbers: a NaN equals nothing, and the two zeros are equal. -/
def sameNumber (x y : Binary32) : Bool :=
  x.decode != .nan && y.decode != .nan
    && (x.bits == y.bits || (x.decode.isZero && y.decode.isZero))

end Binary32

namespace Binary64

/-- The number a double stands for. -/
def decode (x : Binary64) : Number.Value := Number.Format.binary64.decode x.bits.toNat

/-- Equality of numbers: a NaN equals nothing, and the two zeros are equal. -/
def sameNumber (x y : Binary64) : Bool :=
  x.decode != .nan && y.decode != .nan
    && (x.bits == y.bits || (x.decode.isZero && y.decode.isZero))

end Binary64
end PacketRpc
