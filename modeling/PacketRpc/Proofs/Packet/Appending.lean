import PacketRpc.Envelope
import PacketRpc.Proofs.Packet.RoundTrip
import PacketRpc.Proofs.Wire.Appending

/-!
# Writing packets only appends

`Packet.appendOnly`: the body of every packet, and every reference, only appends, by induction on
the packets that are referred to. `Packet.write_context_free` says this of all writes, those of the
codec included, and what it means for sequences of packets and of references.
-/

namespace PacketRpc

namespace Packet

theorem appendOnly_inner (c : DemoInner) : AppendOnly c.write := .bytes _

theorem appendOnly_everything {c : Everything Packet} (hs : AppendOnly (writeReferences c.aRef))
    (h : AppendOnly (writeReference c.fRef)) : AppendOnly (writeBody (.everything c)) := by
  rw [writeBody]
  refine .bind (.flags _) <| .bind (.sequence (fun _ => .bytes _) _) <|
    .bind (.sequence .member _) <| .bind (.sequence (fun _ => .bytes _) _) <|
    .bind (.sequence (fun _ => .bytes _) _) <| .bind (.sequence appendOnly_inner _) <|
    .bind (.sequence (fun _ => .bytes _) _) <| .bind (.sequence (fun _ => .bytes _) _) <|
    .bind (.length _) <| .bind hs <| .bind (.sequence (fun _ => .bytes _) _) <|
    .bind (.sequence .text _) <| .bind (.sequence (fun _ => .bytes _) _) <|
    .bind (.sequence (fun _ => .bytes _) _) <| .bind (.sequence .member _) ?_
  exact .bind (.bytes _) <| .bind (.bytes _) <| .bind (.member _) <| .bind (.bytes _) <|
    .bind (.bytes _) <| .bind (.bytes _) <| .bind (.bytes _) <| .bind (.bytes _) <| .bind h <|
    .bind (.bytes _) <| .bind (.text _) <| .bind (.bytes _) <| .bind (.bytes _) (.member _)

/-- **Writing a packet only appends**, alone or where it is referred to. -/
theorem appendOnly : (∀ p : Packet, AppendOnly p.writeBody) ∧
    (∀ r, AppendOnly (writeReference r)) ∧ ∀ rs, AppendOnly (writeReferences rs) := by
  refine writeBody.mutual_induct _ _ _ ?primitives ?inner ?impostor ?everything ?sum ?mean
    ?result ?error ?echo ?clientEcho ?unhandled ?ping ?nullHash ?nil ?cons ?none ?some
  case primitives =>
    intro c
    rw [writeBody]
    exact .bind (.bytes _) <| .bind (.bytes _) <| .bind (.bytes _) (.text _)
  case everything => exact fun c hs h => appendOnly_everything hs h
  case sum =>
    intro c
    rw [writeBody]
    exact .sequence (fun _ => .bytes _) _
  case mean =>
    intro c
    rw [writeBody]
    exact .bind (.member _) (.sequence (fun _ => .bytes _) _)
  case error | echo | clientEcho =>
    intro c
    rw [writeBody]
    exact .text _
  case inner | impostor | result | unhandled | nullHash =>
    intro c
    rw [writeBody]
    exact .bytes _
  case ping | nil =>
    intros
    simp only [writeBody, writeReferences]
    exact .done
  case cons =>
    intro r rs hr hrs
    rw [writeReferences]
    exact .bind hr hrs
  case none =>
    rw [writeReference]
    exact .bytes _
  case some =>
    intro p hp
    rw [writeReference]
    exact .bind (.bytes _) hp

theorem writeReferenceSequence_eq : writeReferenceSequence = Write.sequence writeReference := by
  funext rs
  rw [writeReferenceSequence, writeReferences_eq, Write.sequence]

/-- **Writing is append-only and free of context.** Whatever has been written before, a packet, a
reference, a value of any kind that a field can have, a sequence of any of them and a length are
written behind it as into an empty writer: with the same outcome and the same bytes, also where the
outcome is an error. So nothing that was there before is changed or lost. Sequences of packets and
of references, of two lists one after the other, differ from those of the two lists in their lengths
only. -/
theorem write_context_free :
    ((∀ p : Packet, AppendOnly p.writeBody ∧ AppendOnly (Envelope.write p)) ∧
      (∀ ps, AppendOnly (writeBodies ps)) ∧
      ∀ r rs, AppendOnly (writeReference r) ∧ AppendOnly (writeReferenceSequence rs)) ∧
    ((∀ v vs, AppendOnly (Write.bool v) ∧ AppendOnly (Write.flags vs)) ∧
      (AppendsScalars Int8 ∧ AppendsScalars UInt8 ∧ AppendsScalars Int16 ∧
        AppendsScalars UInt16 ∧ AppendsScalars Int32 ∧ AppendsScalars Int64 ∧
        AppendsScalars Binary32 ∧ AppendsScalars Binary64 ∧ AppendsScalars String) ∧
      (∀ (α : Type) [Enumerated α] (a : α) (as : List α),
        AppendOnly (Enumerated.write a) ∧ AppendOnly (Write.members as)) ∧
      ∀ n bs, AppendOnly (Write.length n) ∧ AppendOnly (Write.bytes bs)) ∧
    (∀ (p : Packet) (s : Writer), s.toList <+: (p.writeBody s).2.toList) ∧
    Concatenates writeBody writeBodies ∧ Concatenates writeReference writeReferenceSequence := by
  obtain ⟨bodies, references, -⟩ := appendOnly
  have fixed {α : Type} [Scalar α] {f : α → List UInt8}
      (h : ∀ a : α, Write.scalar a = Write.bytes (f a)) : AppendsScalars α :=
    appendsScalars_of fun a => by
      rw [h]
      exact .bytes _
  refine ⟨⟨fun p => ⟨bodies p, references _⟩, fun ps => .sequence bodies ps, fun r rs => ?_⟩,
    ⟨fun v vs => ⟨.bytes _, .flags vs⟩, ?scalars, fun α _ a as => ⟨.member a, .sequence .member as⟩,
      fun n bs => ⟨.length n, .bytes bs⟩⟩,
    fun p s => (bodies p).keeps_before s, concatenates_sequence bodies, ?_⟩
  case scalars =>
    exact ⟨fixed fun _ => rfl, fixed fun _ => rfl, fixed fun _ => rfl, fixed fun _ => rfl,
      fixed fun _ => rfl, fixed fun _ => rfl, fixed fun _ => rfl, fixed fun _ => rfl,
      appendsScalars_of .text⟩
  · rw [writeReferenceSequence_eq]
    exact ⟨references r, .sequence references rs⟩
  · rw [writeReferenceSequence_eq]
    exact concatenates_sequence references

end Packet
end PacketRpc
