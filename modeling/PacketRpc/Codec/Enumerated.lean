import PacketRpc.Codec.Sequence

/-!
# Enumerations

A member of an enumeration is written as its ordinal, in one byte when the enumeration has at most
255 members and in two otherwise. Reading refuses every ordinal that no member has.
-/

namespace PacketRpc

/-- A type whose values have ordinals, of which those below `memberCount` are its members. -/
class Enumerated (α : Type) where
  /-- The name under which a bad ordinal is reported. -/
  name : String
  memberCount : Nat
  ordinal : α → UInt16
  ofOrdinal? : UInt16 → Option α
  /-- The text that stands for a value. -/
  label : α → String

/-- The greatest number of members for which an ordinal takes one byte. -/
def smallEnumLimit : Nat := 255

namespace Enumerated

variable {α : Type} [Enumerated α]

variable (α) in
/-- True when ordinals take two bytes. -/
def isLarge : Bool := decide (smallEnumLimit < memberCount α)

/-- Writes the ordinal; where one byte is all there is, only its low byte. -/
def write (a : α) : Write :=
  if isLarge α then Write.uint16 (ordinal a) else Write.uint8 (ordinal a).toUInt8

/-- Reads an ordinal of the right width. -/
def readOrdinal (α : Type) [Enumerated α] : Read UInt16 :=
  if isLarge α then Read.uint16 else do return (← Read.uint8).toUInt16

/-- Reads a member. -/
def read : Read α := do
  let o ← readOrdinal α
  match ofOrdinal? o with
  | some a => return a
  | none => Step.fail (.badEnum (name α) o (memberCount α))

end Enumerated

/-- Writes a sequence of members. -/
def Write.members {α : Type} [Enumerated α] (as : List α) : Write :=
  Write.sequence Enumerated.write as

/-- Reads a sequence of members. -/
def Read.members {α : Type} [Enumerated α] : Read (List α) := Read.sequence Enumerated.read

/-- An enumeration of `count` members that is held as the bare ordinal. Values at or beyond `count`
can be written but not read. -/
structure Ordinal (name : String) (count : Nat) where
  value : UInt16
  deriving DecidableEq, Repr, Inhabited

instance (name : String) (count : Nat) : Enumerated (Ordinal name count) where
  name := name
  memberCount := count
  ordinal o := o.value
  ofOrdinal? v := if v.toNat < count then some ⟨v⟩ else none
  label o := name ++ "(" ++ o.value.toNat.repr ++ ")"

end PacketRpc
