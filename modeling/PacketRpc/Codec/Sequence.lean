import PacketRpc.Wire.Writer
import PacketRpc.Wire.Reader

/-!
# Sequences

A sequence is its length and then its elements, each in the form its own kind has.
-/

namespace PacketRpc

/-- Writes the length of a list, then each element by `f`. -/
def Write.sequence {α : Type} (f : α → Write) (as : List α) : Write := do
  Write.length as.length
  Step.forEach f as

/-- Reads a length, then that many elements by `x`. -/
def Read.sequence {α : Type} (x : Read α) : Read (List α) := do
  let n ← Read.length
  Step.repeated n x

end PacketRpc
