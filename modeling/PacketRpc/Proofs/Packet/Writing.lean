import PacketRpc.Packet.Write
import PacketRpc.Proofs.Codec.Overflow

/-!
# Writing packets

`Packet.lengths` lists the lengths of all strings and sequences of a packet, and of the packets that
it refers to, in the order in which they are written. They alone decide whether a packet can be
written (`measured_packet`).
-/

namespace PacketRpc

mutual

/-- The lengths of the strings and sequences in a packet and in those that it refers to. -/
def Packet.lengths : Packet → List Nat
  | .primitives c => [c.s.utf8ByteSize]
  | .everything c =>
    c.aBool.length :: c.aByte.length :: c.aColor.length :: c.aDouble.length :: c.aFloat.length ::
      c.aInner.length :: c.aInt.length :: c.aLong.length :: c.aRef.length ::
      (Packet.lengthsOfEach c.aRef ++ c.aShort.length ::
      ((c.aString.length :: c.aString.map String.utf8ByteSize) ++ c.aUbyte.length ::
      c.aUshort.length :: c.aWide.length ::
      (Packet.lengthsOf c.fRef ++ [c.fString.utf8ByteSize])))
  | .calcSum c => [c.values.length]
  | .calcMean c => [c.values.length]
  | .rpcError c => [c.message.utf8ByteSize]
  | .echo c | .clientEcho c => [c.text.utf8ByteSize]
  | .demoInner _ | .impostor _ | .rpcResult _ | .unhandled _ | .ping _ | .nullHash _ => []

/-- The lengths in a packet that is referred to; none where there is none. -/
def Packet.lengthsOf : Option Packet → List Nat
  | none => []
  | some p => p.lengths

/-- The lengths in packets that are referred to, one after another. -/
def Packet.lengthsOfEach : List (Option Packet) → List Nat
  | [] => []
  | r :: rs => Packet.lengthsOf r ++ Packet.lengthsOfEach rs

end

/-! ## Writes measure their lengths -/

theorem measured_everything {c : Everything Packet}
    (hs : Measured (Packet.writeReferences c.aRef) (Packet.lengthsOfEach c.aRef))
    (h : Measured (Packet.writeReference c.fRef) (Packet.lengthsOf c.fRef)) :
    Measured (Packet.writeBody (.everything c)) (Packet.lengths (.everything c)) := by
  rw [Packet.writeBody, Packet.lengths]
  refine .cons_bind (.flags _) <| .cons_bind (.plain (fun _ => .bytes _) _) <|
    .cons_bind (.plain .member _) <| .cons_bind (.plain (fun _ => .bytes _) _) <|
    .cons_bind (.plain (fun _ => .bytes _) _) <| .cons_bind (.plain (fun _ => .bytes _) _) <|
    .cons_bind (.plain (fun _ => .bytes _) _) <| .cons_bind (.plain (fun _ => .bytes _) _) <|
    .cons_bind (.length _) <| .bind hs <| .cons_bind (.plain (fun _ => .bytes _) _) <|
    .bind (.texts _) <| .cons_bind (.plain (fun _ => .bytes _) _) <|
    .cons_bind (.plain (fun _ => .bytes _) _) <| .cons_bind (.plain .member _) ?_
  refine .none_bind (.bytes _) <| .none_bind (.bytes _) <| .none_bind (.member _) <|
    .none_bind (.bytes _) <| .none_bind (.bytes _) <| .none_bind (.bytes _) <|
    .none_bind (.bytes _) <| .none_bind (.bytes _) <| .bind h <| .none_bind (.bytes _) <|
    .cons_bind (.text _) <| .none_bind (.bytes _) <| .none_bind (.bytes _) (.member _)

/-- **The lengths in a packet decide** whether it can be written, alone or where it is referred
to. -/
theorem measured_packet :
    (∀ p : Packet, Measured p.writeBody p.lengths) ∧
    (∀ r, Measured (Packet.writeReference r) (Packet.lengthsOf r)) ∧
    ∀ rs, Measured (Packet.writeReferences rs) (Packet.lengthsOfEach rs) := by
  refine Packet.writeBody.mutual_induct _ _ _ ?primitives ?inner ?impostor ?everything ?sum ?mean
    ?result ?error ?echo ?clientEcho ?unhandled ?ping ?nullHash ?nil ?cons ?none ?some
  case primitives =>
    intro c
    rw [Packet.writeBody, Packet.lengths]
    exact .none_bind (.bytes _) <| .none_bind (.bytes _) <| .none_bind (.bytes _) (.text _)
  case everything => exact fun c hs h => measured_everything hs h
  case sum =>
    intro c
    rw [Packet.writeBody, Packet.lengths]
    exact .plain (fun _ => .bytes _) _
  case mean =>
    intro c
    rw [Packet.writeBody, Packet.lengths]
    exact .none_bind (.member _) (.plain (fun _ => .bytes _) _)
  case error | echo | clientEcho =>
    intro c
    rw [Packet.writeBody, Packet.lengths]
    exact .text _
  case inner | impostor | result | unhandled | nullHash =>
    intro c
    rw [Packet.writeBody, Packet.lengths]
    exact .bytes _
  case ping | nil =>
    intros
    simp only [Packet.writeBody, Packet.lengths, Packet.writeReferences, Packet.lengthsOfEach]
    exact .done
  case cons =>
    intro r rs hr hrs
    rw [Packet.writeReferences, Packet.lengthsOfEach]
    exact .bind hr hrs
  case none =>
    rw [Packet.writeReference, Packet.lengthsOf]
    exact .bytes _
  case some =>
    intro p hp
    rw [Packet.writeReference, Packet.lengthsOf]
    exact .none_bind (.bytes _) hp

end PacketRpc
