import PacketRpc.SystemError

/-!
# Input of a connection

What one end of a connection gets to read: pieces of bytes as they come, and what happens once there
are no more. A read takes at most a fixed number of bytes, so pieces are no longer than that.
-/

namespace PacketRpc

/-- What happens at the end of an input. -/
inductive InputEnd
  /-- The other end has closed its side. -/
  | closed
  /-- Nothing more comes as long as the reader waits. -/
  | silent
  /-- The connection fails for a cause. -/
  | failed (cause : IoCause)
  deriving DecidableEq, Repr

/-- Pieces of bytes, and what happens after them. -/
structure Input where
  pieces : List (List UInt8)
  ending : InputEnd := .closed
  deriving DecidableEq, Repr

/-- The greatest number of bytes that one read takes. -/
def readSize : Nat := 8192

namespace Input

/-- All bytes of an input. -/
def bytes (i : Input) : List UInt8 := i.pieces.flatten

/-- True of pieces as reads take them: none is empty, for an empty read means the end, and none is
longer than a read. -/
def WellCut (i : Input) : Prop := ∀ p ∈ i.pieces, p ≠ [] ∧ p.length ≤ readSize

instance (i : Input) : Decidable i.WellCut :=
  inferInstanceAs (Decidable (∀ p ∈ i.pieces, p ≠ [] ∧ p.length ≤ readSize))

/-- Cuts bytes into pieces as long as a read allows; `fuel` bounds their number. -/
def cut : (fuel : Nat) → List UInt8 → List (List UInt8)
  | 0, _ => []
  | fuel + 1, bs => if bs.isEmpty then [] else bs.take readSize :: cut fuel (bs.drop readSize)

/-- The input of an end to which `bs` have been sent. -/
def ofBytes (bs : List UInt8) (ending : InputEnd := .closed) : Input := ⟨cut bs.length bs, ending⟩

end Input
end PacketRpc
