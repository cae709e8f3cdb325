import PacketRpc.Wire.Writer
import PacketRpc.Wire.Reader

/-!
# Flags

A sequence of booleans is its length and then one bit per element, eight to a byte, the first in
the lowest bit. The bits beyond the last element are written as zero and read as nothing.
-/

namespace PacketRpc.Flags

/-- How many bytes hold `n` flags. -/
def byteCount (n : Nat) : Nat := (n + 7) / 8

/-- The number whose binary digits are the flags, the lowest first. -/
def number : List Bool → Nat
  | [] => 0
  | b :: bs => b.toNat + 2 * number bs

/-- The first `8 * k` flags in `k` bytes. -/
def packInto : (k : Nat) → List Bool → List UInt8
  | 0, _ => []
  | k + 1, bs => UInt8.ofNat (number (bs.take 8)) :: packInto k (bs.drop 8)

/-- Flags packed eight to a byte. -/
def pack (bs : List Bool) : List UInt8 := packInto (byteCount bs.length) bs

/-- The eight bits of a byte, the lowest first. -/
def bits (b : UInt8) : List Bool := (List.range 8).map b.toNat.testBit

/-- The first `n` flags packed in the bytes. -/
def unpack (n : Nat) (bs : List UInt8) : List Bool := (bs.flatMap bits).take n

end PacketRpc.Flags

namespace PacketRpc

/-- Writes flags: their number, then the packed bytes. -/
def Write.flags (bs : List Bool) : Write := do
  Write.length bs.length
  Write.bytes (Flags.pack bs)

/-- Reads flags; the padding bits of the last byte may be anything. -/
def Read.flags : Read (List Bool) := do
  let n ← Read.length
  return Flags.unpack n (← Read.bytes (Flags.byteCount n))

end PacketRpc
