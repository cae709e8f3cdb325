import PacketRpc.Bytes.BigEndian
import PacketRpc.Bytes.Hex

/-!
# Packet hashes

A packet is identified by a signed 64-bit hash of its shape. Zero is reserved for "no packet".
-/

namespace PacketRpc

/-- The 64-bit identity of a packet shape. -/
structure PacketHash where
  value : Int64
  deriving DecidableEq, Repr, Inhabited

namespace PacketHash

/-- The reserved hash of no packet. -/
def null : PacketHash := ⟨0⟩

/-- True of the reserved hash only. -/
def isNull (h : PacketHash) : Bool := h.value == 0

/-- The eight bytes of a hash, the most significant first. -/
def toBytes (h : PacketHash) : List UInt8 := BigEndian.bytes 8 h.value.toUInt64.toNat

/-- The hash whose eight bytes are given. -/
def ofBytes (bs : List UInt8) : PacketHash := ⟨(UInt64.ofNat (BigEndian.value bs)).toInt64⟩

/-- Sixteen upper-case hexadecimal digits. -/
def toHex (h : PacketHash) : String := Hex.encodeUpper h.toBytes

/-- Reads sixteen hexadecimal digits in either case; any other text is refused. -/
def ofHex? (text : String) : Option PacketHash :=
  match Hex.decode text with
  | .ok bs => if bs.length = 8 then some (ofBytes bs) else none
  | .error _ => none

/-- Hashes are ordered as signed numbers. -/
def le (a b : PacketHash) : Bool := decide (a.value ≤ b.value)

/-- A hash as it stands in listings, with its decimal value. -/
def listing (h : PacketHash) : String := "PacketHash(" ++ h.value.toInt.repr ++ ")"

end PacketHash
end PacketRpc
