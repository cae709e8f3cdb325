import PacketRpc.Wire.Step
import PacketRpc.Number.Binary

/-!
# Reading

A reader stands at a position in its input and holds the bytes that remain. Each elementary read
takes a fixed number of bytes or, when fewer remain, fails and stays where it is. Lengths and texts
are read in parts, each of which moves on when it succeeds.
-/

namespace PacketRpc

/-- A position in an input and the bytes from there on. -/
structure Reader where
  position : Nat
  rest : List UInt8
  deriving Inhabited, DecidableEq

namespace Reader

/-- Stands before the first byte of the input. -/
def start (input : List UInt8) : Reader := ⟨0, input⟩

/-- How many bytes remain. -/
def remaining (r : Reader) : Nat := r.rest.length

/-- Passes over the next `n` bytes. -/
def skip (r : Reader) (n : Nat) : Reader := ⟨r.position + n, r.rest.drop n⟩

/-- True when at least `n` bytes remain. -/
def has (r : Reader) : Nat → Bool
  | 0 => true
  | n + 1 => !(r.rest.drop n).isEmpty

theorem has_iff (r : Reader) (n : Nat) : r.has n = true ↔ n ≤ r.remaining := by
  cases n with
  | zero => exact ⟨fun _ => Nat.zero_le _, fun _ => rfl⟩
  | succ n =>
    rw [has, remaining, Bool.not_eq_true', List.isEmpty_eq_false_iff, ne_eq, List.drop_eq_nil_iff]
    exact Nat.not_le

end Reader

/-- A step that reads. -/
abbrev Read (α : Type) := Step Reader α

namespace Read

/-- Takes the next `n` bytes, or fails without moving. -/
def bytes (n : Nat) : Read (List UInt8) := fun r =>
  if r.has n then (.ok (r.rest.take n), r.skip n) else (.error (.short n r.remaining), r)

/-- Takes a number of `width` bytes, the most significant first. -/
def word (width : Nat) : Read Nat := do return BigEndian.value (← bytes width)

/-- Takes one byte; all but zero mean true. -/
def bool : Read Bool := do return (← word 1) != 0

def int8 : Read Int8 := do return (UInt8.ofNat (← word 1)).toInt8
def uint8 : Read UInt8 := do return UInt8.ofNat (← word 1)
def int16 : Read Int16 := do return (UInt16.ofNat (← word 2)).toInt16
def uint16 : Read UInt16 := do return UInt16.ofNat (← word 2)
def int32 : Read Int32 := do return (UInt32.ofNat (← word 4)).toInt32
def int64 : Read Int64 := do return (UInt64.ofNat (← word 8)).toInt64

/-- Takes the bits of a float, whatever they are. -/
def float : Read Binary32 := do return ⟨UInt32.ofNat (← word 4)⟩

/-- Takes the bits of a double, whatever they are. -/
def double : Read Binary64 := do return ⟨UInt64.ofNat (← word 8)⟩

/-- Takes the length of a sequence: one byte, or the byte 255 and a signed 32-bit number that must
not be negative. A number below 255 is accepted in the long form too. -/
def length : Read Nat := do
  let first ← uint8
  if first ≠ 255 then
    return first.toNat
  let n ← int32
  if n < 0 then
    Step.fail (.invalidLength n)
  else
    return n.toNatClampNeg

/-- Takes a text: its length in bytes, then that many bytes of UTF-8. -/
def text : Read String := do
  let bs ← bytes (← length)
  match String.fromUTF8? bs.toByteArray with
  | some s => return s
  | none => Step.fail .invalidText

end Read
end PacketRpc
