import PacketRpc.Packet.Write

/-!
# Equality of contents

Two contents of one type are equal when their fields are: floats as numbers, so that a NaN differs
from itself and the zeros are equal, and packets referred to as they are on the wire.
-/

namespace PacketRpc

/-- Equality of lists element by element. -/
def sameElements {α : Type} (same : α → α → Bool) : List α → List α → Bool
  | [], [] => true
  | a :: as, b :: bs => same a b && sameElements same as bs
  | _, _ => false

namespace Packet

/-- References are the same when both or neither refer, and then to the same on the wire. -/
def sameReference : Option Packet → Option Packet → Bool
  | none, none => true
  | some p, some q => p.sameWire q
  | _, _ => false

end Packet

/-- Equality of all fields. -/
def Everything.same (a b : Everything Packet) : Bool :=
  a.aBool == b.aBool && a.aByte == b.aByte && a.aColor == b.aColor
    && sameElements Binary64.sameNumber a.aDouble b.aDouble
    && sameElements Binary32.sameNumber a.aFloat b.aFloat
    && a.aInner == b.aInner && a.aInt == b.aInt && a.aLong == b.aLong
    && sameElements Packet.sameReference a.aRef b.aRef
    && a.aShort == b.aShort && a.aString == b.aString && a.aUbyte == b.aUbyte
    && a.aUshort == b.aUshort && a.aWide == b.aWide
    && a.fBool == b.fBool && a.fByte == b.fByte && a.fColor == b.fColor
    && Binary64.sameNumber a.fDouble b.fDouble && Binary32.sameNumber a.fFloat b.fFloat
    && a.fInner == b.fInner && a.fInt == b.fInt && a.fLong == b.fLong
    && Packet.sameReference a.fRef b.fRef
    && a.fShort == b.fShort && a.fString == b.fString && a.fUbyte == b.fUbyte
    && a.fUshort == b.fUshort && a.fWide == b.fWide

namespace Packet

/-- Equality of the contents of two packets of one type; nothing for packets of two types. -/
def sameContent? : Packet → Packet → Option Bool
  | primitives a, primitives b => some (a == b)
  | demoInner a, demoInner b => some (a == b)
  | impostor a, impostor b => some (a == b)
  | everything a, everything b => some (a.same b)
  | calcSum a, calcSum b => some (sameElements Binary32.sameNumber a.values b.values)
  | calcMean a, calcMean b =>
    some (a.kind == b.kind && sameElements Binary32.sameNumber a.values b.values)
  | rpcResult a, rpcResult b => some (Binary32.sameNumber a.value b.value)
  | rpcError a, rpcError b => some (a == b)
  | echo a, echo b | clientEcho a, clientEcho b => some (a == b)
  | unhandled a, unhandled b => some (a == b)
  | ping a, ping b => some (a == b)
  | nullHash a, nullHash b => some (a == b)
  | _, _ => none

end Packet
end PacketRpc
