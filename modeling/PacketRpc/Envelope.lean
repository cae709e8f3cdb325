import PacketRpc.Packet.Read

/-!
# Envelopes

On its own, a packet travels in the form of a reference: hash, then body. There is no outer length;
where the packet ends follows from its shape.
-/

namespace PacketRpc

/-- The length of the hash in front of a body. -/
def headerSize : Nat := 8

/-- The greatest number of bytes that may wait for a packet to become complete. -/
def maxPacketSize : Nat := 16 * 1024 * 1024

namespace Envelope

/-- Writes a packet with its hash. -/
def write (p : Packet) : Write := Packet.writeReference (some p)

/-- The bytes of a packet with its hash. -/
def serialize (p : Packet) : Except ProtocolError (List UInt8) :=
  match write p Writer.empty with
  | (.ok _, w) => .ok w.toList
  | (.error e, _) => .error e

/-- Reads a packet with its hash, or none where the reserved hash stands. -/
def read (r : Registry) : Read (Option Packet) := r.readReference

/-- The packet at the start of the bytes; what follows it is ignored. -/
def deserialize (r : Registry) (bs : List UInt8) : Except ProtocolError (Option Packet) :=
  (read r (Reader.start bs)).1

/-- Writes a packet to a sink with room for `room` bytes, and gives what the sink holds then. -/
def writeInto (room : Nat) (p : Packet) : Except ProtocolError Unit × List UInt8 :=
  match serialize p with
  | .error e => (.error e, [])
  | .ok bs =>
    if bs.length ≤ room then (.ok (), bs)
    else (.error (.io (.described "failed to write whole buffer")), bs.take room)

/-- A source of bytes: the pieces it gives in turn, and the failure it ends with, if any. -/
structure Source where
  pieces : List (List UInt8)
  failure : Option IoCause := none

/-- Reads a source to its end and takes the packet at its start. -/
def readFrom (r : Registry) (s : Source) : Except ProtocolError (Option Packet) :=
  match s.failure with
  | some cause => .error (.io cause)
  | none => deserialize r s.pieces.flatten

end Envelope
end PacketRpc
