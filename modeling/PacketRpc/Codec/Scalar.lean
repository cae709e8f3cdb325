import PacketRpc.Codec.Sequence

/-!
# Scalars

The kinds of value whose written form needs no more than the value itself: integers of each width,
floats, doubles and texts. Booleans stand apart, since a sequence of them is packed.
-/

namespace PacketRpc

/-- A kind of value with one written form. -/
class Scalar (α : Type) where
  write : α → Write
  read : Read α

namespace Scalar

instance : Scalar Int8 := ⟨Write.int8, Read.int8⟩
instance : Scalar UInt8 := ⟨Write.uint8, Read.uint8⟩
instance : Scalar Int16 := ⟨Write.int16, Read.int16⟩
instance : Scalar UInt16 := ⟨Write.uint16, Read.uint16⟩
instance : Scalar Int32 := ⟨Write.int32, Read.int32⟩
instance : Scalar Int64 := ⟨Write.int64, Read.int64⟩
instance : Scalar Binary32 := ⟨Write.float, Read.float⟩
instance : Scalar Binary64 := ⟨Write.double, Read.double⟩
instance : Scalar String := ⟨Write.text, Read.text⟩

end Scalar

/-- Writes a scalar. -/
def Write.scalar {α : Type} [Scalar α] (a : α) : Write := Scalar.write a

/-- Reads a scalar. -/
def Read.scalar {α : Type} [Scalar α] : Read α := Scalar.read

/-- Writes a sequence of scalars. -/
def Write.scalars {α : Type} [Scalar α] (as : List α) : Write := Write.sequence Scalar.write as

/-- Reads a sequence of scalars. -/
def Read.scalars {α : Type} [Scalar α] : Read (List α) := Read.sequence Scalar.read

/-- The value from 0 to 255 with the bits of a signed byte. -/
def widenByte (v : Int8) : Int32 := v.toInt32 &&& 0xFF

/-- The value from 0 to 65535 with the bits of a signed short. -/
def widenShort (v : Int16) : Int32 := v.toInt32 &&& 0xFFFF

end PacketRpc
