import PacketRpc.Envelope

/-!
# Packets from a stream

A decoder collects the bytes of a stream in whatever pieces they come and hands out the packets as
they become complete. Bytes leave the buffer only with a packet, or as a reserved hash, which is an
error in a stream; after any other error the buffer stays as it was.
-/

namespace PacketRpc

/-- The bytes of a stream that have come and not yet been handed out. -/
structure Decoder where
  registry : Registry
  maxSize : Nat := maxPacketSize
  buffer : List UInt8 := []

namespace Decoder

/-- How many bytes are waiting. -/
def buffered (d : Decoder) : Nat := d.buffer.length

/-- Takes in bytes of the stream. -/
def extend (d : Decoder) (bs : List UInt8) : Decoder := { d with buffer := d.buffer ++ bs }

/-- Forgets all waiting bytes. -/
def clear (d : Decoder) : Decoder := { d with buffer := [] }

/-- Hands out the packet at the front, if it is complete. An incomplete packet is an error once
more bytes than allowed are waiting. -/
def decode (d : Decoder) : Except ProtocolError (Option Packet) × Decoder :=
  if d.buffered < headerSize then (.ok none, d)
  else match Envelope.read d.registry (Reader.start d.buffer) with
    | (.ok (some p), r) => (.ok (some p), { d with buffer := d.buffer.drop r.position })
    | (.ok none, _) => (.error .nullPacket, { d with buffer := d.buffer.drop headerSize })
    | (.error e, _) =>
      if e.isIncomplete then
        if d.maxSize < d.buffered then (.error (.packetTooLarge d.buffered d.maxSize), d)
        else (.ok none, d)
      else (.error e, d)

end Decoder
end PacketRpc
