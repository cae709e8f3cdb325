import PacketRpc.Packet.Basic

/-!
# Writing packets

The body of a packet is its fields in the order of their names. A packet that another one refers
to carries its hash in front of the body; where no packet is referred to, the reserved hash stands
alone. An embedded packet is the bare body.
-/

namespace PacketRpc

namespace DemoInner

/-- Writes the body of an inner packet. -/
def write (c : DemoInner) : Write := Write.int32 c.value

/-- Reads the body of an inner packet. -/
def read : Read DemoInner := do return ⟨← Read.int32⟩

end DemoInner

mutual

/-- Writes the body of a packet. -/
def Packet.writeBody : Packet → Write
  | .primitives c => do
    Write.bool c.b
    Write.scalar c.i
    Write.scalar c.l
    Write.scalar c.s
  | .demoInner c => c.write
  | .impostor c => Write.scalar c.x
  | .everything c => do
    Write.flags c.aBool
    Write.scalars c.aByte
    Write.members c.aColor
    Write.scalars c.aDouble
    Write.scalars c.aFloat
    Write.sequence DemoInner.write c.aInner
    Write.scalars c.aInt
    Write.scalars c.aLong
    Write.length c.aRef.length
    Packet.writeReferences c.aRef
    Write.scalars c.aShort
    Write.scalars c.aString
    Write.scalars c.aUbyte
    Write.scalars c.aUshort
    Write.members c.aWide
    Write.bool c.fBool
    Write.scalar c.fByte
    Enumerated.write c.fColor
    Write.scalar c.fDouble
    Write.scalar c.fFloat
    c.fInner.write
    Write.scalar c.fInt
    Write.scalar c.fLong
    Packet.writeReference c.fRef
    Write.scalar c.fShort
    Write.scalar c.fString
    Write.scalar c.fUbyte
    Write.scalar c.fUshort
    Enumerated.write c.fWide
  | .calcSum c => Write.scalars c.values
  | .calcMean c => do
    Enumerated.write c.kind
    Write.scalars c.values
  | .rpcResult c => Write.scalar c.value
  | .rpcError c => Write.scalar c.message
  | .echo c | .clientEcho c => Write.scalar c.text
  | .unhandled c => Write.scalar c.n
  | .ping _ => pure ()
  | .nullHash c => Write.scalar c.x

/-- Writes a packet with its hash, or the reserved hash for none. -/
def Packet.writeReference : Option Packet → Write
  | none => Write.int64 PacketHash.null.value
  | some p => do
    Write.int64 p.hash.value
    p.writeBody

/-- Writes references one after another. -/
def Packet.writeReferences : List (Option Packet) → Write
  | [] => pure ()
  | r :: rs => do
    Packet.writeReference r
    Packet.writeReferences rs

end

namespace Packet

/-- Writes a sequence of references. -/
def writeReferenceSequence (rs : List (Option Packet)) : Write := do
  Write.length rs.length
  writeReferences rs

/-- Writes a sequence of embedded packets. -/
def writeBodies (ps : List Packet) : Write := Write.sequence writeBody ps

/-- The bytes of the body, or why there are none. -/
def bodyBytes (p : Packet) : Except ProtocolError (List UInt8) :=
  match p.writeBody Writer.empty with
  | (.ok _, w) => .ok w.toList
  | (.error e, _) => .error e

/-- Two packets are the same on the wire when they have the same hash and the same body. A packet
that cannot be written is the same as none. -/
def sameWire (p q : Packet) : Bool :=
  p.hash == q.hash && match p.bodyBytes, q.bodyBytes with
    | .ok a, .ok b => a == b
    | _, _ => false

end Packet
end PacketRpc
