import PacketRpc.Packet.Write
import PacketRpc.Registry

/-!
# Reading packets

A reference begins with a hash, which tells by way of a registry what body follows. Bodies may hold
references in turn. Each of them takes eight bytes for its hash, so references can nest at most
`remaining / 8` deep, and reading ends without any other bound.
-/

namespace PacketRpc

/-- Reads the body of a packet of the given type, with `reference` for the packets it refers to. -/
def Packet.readBody (reference : Read (Option Packet)) : PacketType → Read Packet
  | .primitives => do
    let b ← Read.bool
    let i ← Read.scalar
    let l ← Read.scalar
    let s ← Read.scalar
    return .primitives ⟨b, i, l, s⟩
  | .demoInner => do return .demoInner (← DemoInner.read)
  | .impostor => do return .impostor ⟨← Read.scalar⟩
  | .everything => do
    let aBool ← Read.flags
    let aByte ← Read.scalars
    let aColor ← Read.members
    let aDouble ← Read.scalars
    let aFloat ← Read.scalars
    let aInner ← Read.sequence DemoInner.read
    let aInt ← Read.scalars
    let aLong ← Read.scalars
    let aRef ← Read.sequence reference
    let aShort ← Read.scalars
    let aString ← Read.scalars
    let aUbyte ← Read.scalars
    let aUshort ← Read.scalars
    let aWide ← Read.members
    let fBool ← Read.bool
    let fByte ← Read.scalar
    let fColor ← Enumerated.read
    let fDouble ← Read.scalar
    let fFloat ← Read.scalar
    let fInner ← DemoInner.read
    let fInt ← Read.scalar
    let fLong ← Read.scalar
    let fRef ← reference
    let fShort ← Read.scalar
    let fString ← Read.scalar
    let fUbyte ← Read.scalar
    let fUshort ← Read.scalar
    let fWide ← Enumerated.read
    return .everything ⟨aBool, aByte, aColor, aDouble, aFloat, aInner, aInt, aLong, aRef, aShort,
      aString, aUbyte, aUshort, aWide, fBool, fByte, fColor, fDouble, fFloat, fInner, fInt, fLong,
      fRef, fShort, fString, fUbyte, fUshort, fWide⟩
  | .calcSum => do return .calcSum ⟨← Read.scalars⟩
  | .calcMean => do
    let kind ← Enumerated.read
    let values ← Read.scalars
    return .calcMean ⟨kind, values⟩
  | .rpcResult => do return .rpcResult ⟨← Read.scalar⟩
  | .rpcError => do return .rpcError ⟨← Read.scalar⟩
  | .echo => do return .echo ⟨← Read.scalar⟩
  | .clientEcho => do return .clientEcho ⟨← Read.scalar⟩
  | .unhandled => do return .unhandled ⟨← Read.scalar⟩
  | .ping => return .ping ⟨⟩
  | .nullHash => do return .nullHash ⟨← Read.scalar⟩

namespace Registry

/-- Reads a hash and, unless it is the reserved one, the body that `body` reads for the type behind
it. -/
def readHeaded (r : Registry) (body : PacketType → Read Packet) : Read (Option Packet) := do
  let h : PacketHash := ⟨← Read.int64⟩
  if h.isNull then
    return none
  match r.typeOf? h with
  | none => Step.fail (.unknownHash h)
  | some t => return some (← body t)

/-- Reads a reference within which others nest at most `depth` deep. Depth zero is reached only
where fewer than eight bytes remain, so that not even the hash can be read. -/
def readReferenceWithin (r : Registry) : (depth : Nat) → Read (Option Packet)
  | 0 => r.readHeaded fun _ => Step.fail .nullPacket
  | depth + 1 => r.readHeaded (Packet.readBody (readReferenceWithin r depth))

/-- Reads a reference: a packet with its hash, or none. -/
def readReference (r : Registry) : Read (Option Packet) := fun s =>
  r.readReferenceWithin (s.remaining / 8) s

/-- Reads the bare body of a packet of the given type. -/
def readBody (r : Registry) (t : PacketType) : Read Packet := fun s =>
  Packet.readBody (r.readReferenceWithin (s.remaining / 8)) t s

/-- Reads a sequence of references. -/
def readReferences (r : Registry) : Read (List (Option Packet)) := Read.sequence r.readReference

/-- Reads a sequence of embedded packets of one type. -/
def readBodies (r : Registry) (t : PacketType) : Read (List Packet) := Read.sequence (r.readBody t)

end Registry
end PacketRpc
