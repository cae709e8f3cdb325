import PacketRpc.Wire.Step
import PacketRpc.Number.Binary

/-!
# Writing

A writer holds the bytes written so far and only ever appends to them. Numbers are big-endian at
their own width. Lengths below 255 take one byte; all others take the byte 255 and a signed
32-bit number, so a sequence of more than `maxLength` elements cannot be written.
-/

namespace PacketRpc

/-- The bytes written so far. -/
structure Writer where
  bytes : Array UInt8
  deriving Inhabited, DecidableEq

namespace Writer

/-- Nothing written yet. -/
def empty : Writer := ⟨#[]⟩

/-- How many bytes have been written. -/
def size (w : Writer) : Nat := w.bytes.size

/-- The written bytes in order. -/
def toList (w : Writer) : List UInt8 := w.bytes.toList

/-- Adds bytes at the end. -/
def append (w : Writer) (bs : List UInt8) : Writer := ⟨w.bytes ++ bs⟩

@[simp] theorem toList_empty : empty.toList = [] := rfl

@[simp] theorem toList_append (w : Writer) (bs : List UInt8) :
    (w.append bs).toList = w.toList ++ bs := by simp [append, toList]

end Writer

/-- A step that writes. -/
abbrev Write := Step Writer Unit

/-- From this length on, a length takes five bytes; the number itself marks the long form. -/
def longLengthMark : Nat := 255

/-- The greatest length that can be written: the greatest signed 32-bit number. -/
def maxLength : Nat := 2147483647

namespace Write

/-- Writes bytes as they are. -/
def bytes (bs : List UInt8) : Write := fun w => (.ok (), w.append bs)

/-- Writes a number as `width` bytes, the most significant first. -/
def word (width n : Nat) : Write := bytes (BigEndian.bytes width n)

/-- Writes one byte, 1 for true and 0 for false. -/
def bool (b : Bool) : Write := word 1 (if b then 1 else 0)

def int8 (v : Int8) : Write := word 1 v.toUInt8.toNat
def uint8 (v : UInt8) : Write := word 1 v.toNat
def int16 (v : Int16) : Write := word 2 v.toUInt16.toNat
def uint16 (v : UInt16) : Write := word 2 v.toNat
def int32 (v : Int32) : Write := word 4 v.toUInt32.toNat
def int64 (v : Int64) : Write := word 8 v.toUInt64.toNat

/-- Writes the bits of a float, whatever they are. -/
def float (v : Binary32) : Write := word 4 v.bits.toNat

/-- Writes the bits of a double, whatever they are. -/
def double (v : Binary64) : Write := word 8 v.bits.toNat

/-- Writes the length of a sequence; one that is too long writes nothing. -/
def length (n : Nat) : Write :=
  if n < longLengthMark then word 1 n
  else if n ≤ maxLength then bytes (UInt8.ofNat longLengthMark :: BigEndian.bytes 4 n)
  else Step.fail (.lengthOverflow n)

/-- The UTF-8 bytes of a text. -/
def textBytes (s : String) : List UInt8 := s.toUTF8.data.toList

/-- Writes a text as its length in bytes and its UTF-8 bytes. -/
def text (s : String) : Write := do
  length s.utf8ByteSize
  bytes (textBytes s)

end Write
end PacketRpc
