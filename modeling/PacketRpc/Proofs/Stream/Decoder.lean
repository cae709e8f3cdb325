import PacketRpc.Proofs.Packet.Reading
import PacketRpc.Stream.Decoder

/-!
# What a decoder hands out

At the front of any bytes stands a packet, the reserved hash, something that is neither, or the
beginning of one of them (`Envelope.induct_stream`). `Decoder.decode` does one thing in each of
these cases, whatever follows in the buffer: `Decoder.decode_of_packet`, `Decoder.decode_of_null`,
`Decoder.decode_of_undecodable` and `Decoder.decode_of_short`.
-/

namespace PacketRpc

/-! ## The front of a stream -/

namespace Envelope

variable {r : Registry} {cs rest : List UInt8}

/-- Nothing is told from fewer bytes than a hash has. -/
theorem headerSize_le {o : Except ProtocolError (Option Packet)} (hy : Yields (read r) cs o)
    (ho : ¬ Short o) : headerSize ≤ cs.length := by
  apply Classical.byContradiction
  intro h
  have hs : Short (read r ⟨0, cs ++ []⟩).1 :=
    short_of_lt (by rw [Reader.remaining, List.append_nil]; exact Nat.not_le.1 h)
  rw [hy] at hs
  exact ho hs

/-- The reserved hash is all that is taken of an envelope without a packet. -/
theorem length_of_null (hy : Yields (read r) cs (.ok none)) : cs.length = headerSize := by
  have hs : headerSize ≤ (Reader.mk 0 (cs ++ [])).remaining := by
    rw [Reader.remaining, List.append_nil]
    exact headerSize_le hy (not_short_ok none)
  have hr := hy 0 []
  rw [read_eq, Registry.readHeaded_of_le hs] at hr
  simp only at hr
  split at hr
  · have hp := congrArg (fun x => x.2.position) hr
    simp only [Reader.skip, Nat.zero_add] at hp
    exact hp.symm
  · split at hr
    · cases hr
    · obtain ⟨p, t, -, hp⟩ := Step.bind_eq_ok hr
      cases hp

/-- What is not an envelope is not one for an error of reading. -/
theorem ofReading_of_yields {e : ProtocolError} (hy : Yields (read r) cs (.error e)) :
    e.ofReading = true :=
  Registry.ofReading_of_reference (hy 0 [])

theorem read_start {o : Except ProtocolError (Option Packet)} (hy : Yields (read r) cs o) :
    read r (.start (cs ++ rest)) = (o, ⟨cs.length, rest⟩) := by
  rw [Reader.start, hy, Nat.zero_add]

/-- **The four things that can stand at the front of a stream**: a packet, the reserved hash,
bytes that are neither, or a beginning that is too short to tell. -/
@[elab_as_elim]
theorem induct_stream (r : Registry) {motive : List UInt8 → Prop}
    (packet : ∀ cs p rest, Yields (read r) cs (.ok (some p)) → motive rest → motive (cs ++ rest))
    (null : ∀ cs rest, Yields (read r) cs (.ok none) → motive rest → motive (cs ++ rest))
    (undecodable : ∀ cs e rest, Yields (read r) cs (.error e) → e.isIncomplete = false →
      motive (cs ++ rest))
    (unfinished : ∀ bs, Short (read r (.start bs)).1 → motive bs) (bs : List UInt8) :
    motive bs := by
  induction h : bs.length using Nat.strongRecOn generalizing bs with
  | ind n ih =>
    rcases hx : read r (.start bs) with ⟨o, t⟩
    by_cases ho : Short o
    · exact unfinished bs (by rwa [hx])
    · obtain ⟨cs, hs, hy⟩ := regular_read.yields hx ho
      obtain rfl : bs = cs ++ t.rest := hs.rest
      have hl : t.rest.length < n := by
        have := headerSize_le hy ho
        have : 0 < headerSize := by decide
        rw [List.length_append] at h
        omega
      match o with
      | .ok (some p) => exact packet cs p t.rest hy (ih _ hl t.rest rfl)
      | .ok none => exact null cs t.rest hy (ih _ hl t.rest rfl)
      | .error e =>
        exact undecodable cs e t.rest hy (Bool.eq_false_iff.2 fun k => ho (short_error_iff.2 k))

end Envelope

/-! ## One packet at a time -/

namespace Decoder

variable {d : Decoder} {cs rest : List UInt8}

/-- What can be told from the buffer is told from a hash at least. -/
theorem not_buffered_lt {o : Except ProtocolError (Option Packet)} (hb : d.buffer = cs ++ rest)
    (hy : Yields (Envelope.read d.registry) cs o) (ho : ¬ Short o) :
    ¬ d.buffered < headerSize := by
  have := Envelope.headerSize_le hy ho
  rw [buffered, hb, List.length_append]
  omega

/-- A packet at the front is handed out, and its bytes leave the buffer. -/
theorem decode_of_packet {p : Packet} (hb : d.buffer = cs ++ rest)
    (hy : Yields (Envelope.read d.registry) cs (.ok (some p))) :
    d.decode = (.ok (some p), { d with buffer := rest }) := by
  rw [decode, if_neg (not_buffered_lt hb hy (not_short_ok _)), hb, Envelope.read_start hy]
  simp

/-- A reserved hash at the front is an error, and its bytes leave the buffer. -/
theorem decode_of_null (hb : d.buffer = cs ++ rest)
    (hy : Yields (Envelope.read d.registry) cs (.ok none)) :
    d.decode = (.error .nullPacket, { d with buffer := rest }) := by
  rw [decode, if_neg (not_buffered_lt hb hy (not_short_ok _)), hb, Envelope.read_start hy,
    ← Envelope.length_of_null hy]
  simp

/-- What cannot be read is an error, and stays. -/
theorem decode_of_undecodable {e : ProtocolError} (hb : d.buffer = cs ++ rest)
    (hy : Yields (Envelope.read d.registry) cs (.error e)) (he : e.isIncomplete = false) :
    d.decode = (.error e, d) := by
  have ho : ¬ Short (.error e : Except ProtocolError (Option Packet)) := by
    rw [short_error_iff, he]
    decide
  rw [decode, if_neg (not_buffered_lt hb hy ho), hb, Envelope.read_start hy]
  simp [he]

/-- What is too short to tell stays as well: it is waited for, up to the size that is allowed. -/
theorem decode_of_short (hs : Short (Envelope.read d.registry (.start d.buffer)).1) :
    d.decode =
      (if headerSize ≤ d.buffered ∧ d.maxSize < d.buffered then
        .error (.packetTooLarge d.buffered d.maxSize) else .ok none, d) := by
  rcases Nat.lt_or_ge d.buffered headerSize with hl | hl
  · rw [decode, if_pos hl, if_neg fun h => absurd h.1 (Nat.not_le.2 hl)]
  · rcases hx : Envelope.read d.registry (.start d.buffer) with ⟨o, t⟩
    rw [hx] at hs
    obtain ⟨needed, remaining, rfl⟩ := hs
    rw [decode, if_neg (Nat.not_lt.2 hl), hx]
    by_cases hm : d.maxSize < d.buffered <;> simp [ProtocolError.isIncomplete, hl, hm]

/-- Within the size that is allowed, nothing comes of a beginning. -/
theorem decode_of_short_le (hs : Short (Envelope.read d.registry (.start d.buffer)).1)
    (hm : d.buffered ≤ d.maxSize) : d.decode = (.ok none, d) := by
  rw [decode_of_short hs, if_neg fun h => absurd h.2 (Nat.not_lt.2 hm)]

/-- Of the bytes that yield an outcome, either all have come or too few to tell. -/
theorem arrived_or_short {more : List UInt8} {o : Except ProtocolError (Option Packet)}
    (hy : Yields (Envelope.read d.registry) cs o) (he : d.buffer ++ more = cs ++ rest) :
    (∃ u, d.buffer = cs ++ u) ∨
      d.buffered < cs.length ∧ Short (Envelope.read d.registry (.start d.buffer)).1 := by
  rcases Nat.lt_or_ge d.buffered cs.length with hl | hl
  · exact .inr ⟨hl, Envelope.regular_read.short_of_lt hy he.symm hl 0⟩
  · obtain ⟨u, hu⟩ := List.prefix_of_prefix_length_le ⟨rest, he.symm⟩
      (List.prefix_append d.buffer more) hl
    exact .inl ⟨u, hu.symm⟩

end Decoder
end PacketRpc
