import PacketRpc.Proofs.Packet.Reading
import PacketRpc.Proofs.Wire.Course

/-!
# Reading ends within the input

A packet may refer to packets of its own type, one by one and in sequences, as the input will have
it, so nothing about the types bounds how deep references nest. But each of them begins with a hash:
what a reference is read as depends only on what is read behind its hash
(`Registry.readHeaded_congr`), so reading references descends by the size of a hash
(`Registry.descends_reference`).

`Envelope.read_descends`: the recursion ends on every input, with the outcome of `Envelope.read`,
and keeps within the input all the way.
-/

namespace PacketRpc

namespace Registry

/-- The course of reading a reference: a hash, and the body behind it with calls for the references
in it. Nothing in it tells how deep it nests. -/
def IsCourse (r : Registry) (c : Course (Option Packet) (Option Packet)) : Prop :=
  ∀ reference, c.run reference = r.readHeaded (Packet.readBody reference)

variable {r : Registry}

theorem exists_isCourse (r : Registry) : ∃ c, r.IsCourse c :=
  (composed_headed composed_body).exists_course

/-- What is read as a reference depends only on what is read for references behind the hash. -/
theorem IsCourse.run_congr {c : Course (Option Packet) (Option Packet)} (h : r.IsCourse c)
    {s : Reader} {other : Read (Option Packet)}
    (ho : ∀ t : Reader, t.remaining + headerSize ≤ s.remaining → other t = r.readReference t) :
    c.run other s = c.run r.readReference s := by
  rw [h, h]
  refine (readHeaded_congr fun t u hu => ?_).symm
  refine (composed_body t).congr regular_reference (k := u.remaining) (fun v hv => ?_) u
    (Nat.le_refl _)
  exact (ho v (by omega)).symm

/-- **Reading references descends**: each begins behind the hash of the one that it is in. -/
theorem descends_reference {c : Course (Option Packet) (Option Packet)} (h : r.IsCourse c) :
    Descends r.readReference c headerSize where
  size_pos := by decide
  regular := regular_reference
  run_eq := (h _).trans readReference_eq.symm
  late {s _ _} ht :=
    ht.holds_at_call (P := fun t => t.remaining + headerSize ≤ s.remaining) fun _ =>
      h.run_congr fun _ hu => if_pos hu

end Registry

namespace Envelope

open Machine (Reaches)

/-- **Reading ends within the input.** The recursion that reads a packet has a course, and a machine
that follows it, whatever the registry and the input are, comes to an end without any bound on its
steps or its stack: with the outcome of `read`, and from wherever it is on the way. On the way, the
calls on its stack have taken the bytes of a hash each, so there are no more of them than the input
has room for; the reader has all of the input before and behind it; and no step goes back. -/
theorem read_descends (r : Registry) :
    (∃ c, r.IsCourse c) ∧
    ∀ c, r.IsCourse c → ∀ (d : List UInt8) (x : Machine (Option Packet)),
      Reaches c ⟨c, [], .start d⟩ x →
        Reaches c x ⟨.ended (read r (.start d)).1, [], (read r (.start d)).2⟩ ∧
        (headerSize * x.around.length ≤ x.reader.position ∧
          x.around.length ≤ d.length / headerSize) ∧
        (x.reader.position + x.reader.remaining = d.length ∧
          x.reader.rest = d.drop x.reader.position) ∧
        ∀ y, x.next? c = some y → x.reader.position ≤ y.reader.position := by
  refine ⟨r.exists_isCourse, fun c hc d x hx => ?_⟩
  have h := Registry.descends_reference hc
  obtain ⟨bs, hb, hdepth⟩ := h.bounds_of_reaches hx
  have hp : x.reader.position = bs.length := hb.position.trans (Nat.zero_add _)
  have hd : d = bs ++ x.reader.rest := hb.rest
  have hl : bs.length + x.reader.remaining = d.length := hb.remaining_eq.symm
  refine ⟨?_, ⟨hp ▸ hdepth, ?_⟩, ⟨hp ▸ hl, ?_⟩, fun y => Machine.position_le_of_next⟩
  · -- there is one run only, and it has an end
    have hend := h.reaches_end (.start d) []
    rcases Machine.reaches_or_reaches hx hend with hto | hfrom
    · exact hto
    · rcases hfrom.cases_head with rfl | ⟨y, hy, -⟩
      · exact .refl
      · cases hy
  · rw [Nat.le_div_iff_mul_le (by decide), Nat.mul_comm]
    omega
  · rw [hp]
    exact ((congrArg (List.drop bs.length) hd).trans List.drop_left).symm

/-- A packet in the sequence of references of another, cut off behind its hash. The recursion ends
there, for want of the next byte, and never had more than three calls on its stack. -/
theorem read_descends_nested :
    let r := Registry.ofTypes [.everything]
    let d := [0xAF, 0xFA, 0xE9, 0x69, 0xDE, 0x66, 0xC1, 0x83, 0, 0, 0, 0, 0, 0, 0, 0, 1,
      0xAF, 0xFA, 0xE9, 0x69, 0xDE, 0x66, 0xC1, 0x83]
    ∃ c, r.IsCourse c ∧
      Reaches c ⟨c, [], .start d⟩ ⟨.ended (.error (.short 1 0)), [], ⟨25, []⟩⟩ ∧
      ∀ x, Reaches c ⟨c, [], .start d⟩ x → x.around.length ≤ 3 := by
  intro r d
  obtain ⟨⟨c, hc⟩, h⟩ := read_descends r
  have hread : read r (.start d) = (.error (.short 1 0), ⟨25, []⟩) := by
    simp only [r, d]
    rw [read_eq, Registry.readHeaded_of_le (by decide)]
    rfl
  refine ⟨c, hc, ?_, fun x hx => Nat.le_trans (h c hc d x hx).2.1.2 (by decide)⟩
  have hend := (h c hc d _ .refl).1
  rwa [hread] at hend

end Envelope
end PacketRpc
