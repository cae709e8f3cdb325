import PacketRpc.Proofs.Stream.Items

/-!
# Feeding a decoder

A caller gets a stream in pieces. It gives each piece to a decoder (`Decoder.extend`) and takes what
has become complete (`Decoder.drain`), up to an error that leaves the bytes where they are. What it
gets in the end is what the stream holds, however it was cut (`Decoder.feed_eq_items`), as long as
nothing in it is longer than the decoder allows.
-/

namespace PacketRpc
namespace Decoder

/-! ## Taking all that is complete -/

/-- Bytes leave the buffer with a packet, and with a reserved hash. -/
theorem buffered_lt {d d' : Decoder} {o : Except ProtocolError (Option Packet)}
    (h : d.decode = (o, d')) (ho : (∃ p, o = .ok (some p)) ∨ o = .error .nullPacket) :
    d'.buffered < d.buffered := by
  have pos : 0 < headerSize := by decide
  induction hb : d.buffer using Envelope.induct_stream d.registry with
  | packet cs p rest hy _ =>
    have hc := Envelope.headerSize_le hy (not_short_ok _)
    rw [decode_of_packet hb hy] at h
    cases h
    simp only [buffered, hb, List.length_append]
    omega
  | null cs rest hy _ =>
    have hc := Envelope.length_of_null hy
    rw [decode_of_null hb hy] at h
    cases h
    simp only [buffered, hb, List.length_append]
    omega
  | undecodable cs e rest hy he =>
    rw [decode_of_undecodable hb hy he] at h
    cases h
    obtain ⟨p, hp⟩ | hp := ho
    · cases hp
    · cases hp
      cases Envelope.ofReading_of_yields hy
  | unfinished bs hs =>
    rw [decode_of_short (hb ▸ hs)] at h
    cases h
    obtain ⟨p, hp⟩ | hp := ho <;> split at hp <;> cases hp

/-- Takes packets and reserved hashes until no more is complete. Any other error is the last thing
to come of a decoder; the second part is the decoder as it is left otherwise. -/
def drain (d : Decoder) : List (Except ProtocolError Packet) × Option Decoder :=
  match _ : d.decode with
  | (.ok (some p), d') => (drain d').map (.ok p :: ·) id
  | (.ok none, d') => ([], some d')
  | (.error .nullPacket, d') => (drain d').map (.error .nullPacket :: ·) id
  | (.error e, _) => ([.error e], none)
termination_by d.buffered
decreasing_by
  · exact buffered_lt ‹_› (.inl ⟨_, rfl⟩)
  · exact buffered_lt ‹_› (.inr rfl)

/-- Gives the pieces of a stream to a decoder in turn, and takes what each completes. -/
def feed (d : Decoder) : List (List UInt8) → List (Except ProtocolError Packet) × Option Decoder
  | [] => ([], some d)
  | piece :: pieces =>
    match (d.extend piece).drain with
    | (os, some d') => (feed d' pieces).map (os ++ ·) id
    | (os, none) => (os, none)

section
variable {d d' : Decoder}

theorem drain_of_packet {p : Packet} (h : d.decode = (.ok (some p), d')) :
    d.drain = d'.drain.map (.ok p :: ·) id := by
  rw [drain]
  split <;> simp_all

theorem drain_of_null (h : d.decode = (.error .nullPacket, d')) :
    d.drain = d'.drain.map (.error .nullPacket :: ·) id := by
  rw [drain]
  split <;> simp_all

theorem drain_of_error {e : ProtocolError} (h : d.decode = (.error e, d')) (he : e ≠ .nullPacket) :
    d.drain = ([.error e], none) := by
  rw [drain]
  split <;> simp_all

theorem drain_of_none (h : d.decode = (.ok none, d')) : d.drain = ([], some d') := by
  rw [drain]
  split <;> simp_all

end

variable {r : Registry} {max : Nat} {bs : List UInt8}

open Envelope (items)

/-- What waits is taken item by item. -/
theorem drain_eq_items (h : ∀ i ∈ items r bs, i.size ≤ max) :
    drain ⟨r, max, bs⟩ =
      ((items r bs).filterMap Item.outcome?,
        ((items r bs).findSome? Item.unread?).map (⟨r, max, ·⟩)) := by
  induction bs using Envelope.induct_stream r with
  | packet cs p rest hy ih =>
    rw [Envelope.items_of_packet rest hy] at h ⊢
    rw [drain_of_packet (decode_of_packet (d := ⟨r, max, _⟩) rfl hy),
      ih fun i hi => h i (.tail _ hi)]
    rfl
  | null cs rest hy ih =>
    rw [Envelope.items_of_null rest hy] at h ⊢
    rw [drain_of_null (decode_of_null (d := ⟨r, max, _⟩) rfl hy),
      ih fun i hi => h i (.tail _ hi)]
    rfl
  | undecodable cs e rest hy he =>
    have hn : e ≠ .nullPacket := by
      rintro rfl
      cases Envelope.ofReading_of_yields hy
    rw [Envelope.items_of_undecodable rest hy he,
      drain_of_error (decode_of_undecodable (d := ⟨r, max, _⟩) rfl hy he) hn]
    simp [Item.outcome?, Item.unread?]
  | unfinished bs hs =>
    rw [Envelope.items_of_short hs] at h ⊢
    rw [drain_of_none (decode_of_short_le (d := ⟨r, max, bs⟩) hs (h _ (.head _)))]
    simp [Item.outcome?, Item.unread?]

/-! ## A whole stream -/

/-- A decoder that waits for the rest of `bs` goes on with that. -/
theorem feed_eq_items_of_short (hs : Short (Envelope.read r (.start bs)).1)
    {pieces : List (List UInt8)} (h : ∀ i ∈ items r (bs ++ pieces.flatten), i.size ≤ max) :
    feed ⟨r, max, bs⟩ pieces =
      ((items r (bs ++ pieces.flatten)).filterMap Item.outcome?,
        ((items r (bs ++ pieces.flatten)).findSome? Item.unread?).map (⟨r, max, ·⟩)) := by
  induction pieces generalizing bs with
  | nil => simp [feed, Envelope.items_of_short hs, Item.outcome?, Item.unread?]
  | cons piece pieces ih =>
    rw [List.flatten_cons, ← List.append_assoc] at h ⊢
    have hd : drain ⟨r, max, bs ++ piece⟩ = _ := drain_eq_items fun i hi => by
      obtain ⟨j, hj, hl⟩ := Envelope.exists_size_le r _ pieces.flatten hi
      exact Nat.le_trans hl (h j hj)
    rw [feed, extend, hd]
    obtain ⟨is, u, he, hn, hs, ha⟩ | ⟨hn, ha⟩ :=
      Envelope.items_append r (bs ++ piece) pieces.flatten
    · have hu : is.findSome? Item.unread? = none := List.findSome?_eq_none_iff.2 hn
      rw [ha] at h ⊢
      rw [he]
      simp [hu, Item.unread?, Item.outcome?, ih hs fun i hi => h i (List.mem_append_right _ hi)]
    · rw [ha, List.findSome?_eq_none_iff.2 hn]
      rfl

/-- **A stream gives the same however it is cut.** Fed with the pieces of a stream, a decoder gives
what stands in it, in turn, and keeps what is left to read; unless something in the stream needs
more bytes than the decoder lets wait. -/
theorem feed_eq_items (r : Registry) (max : Nat) (pieces : List (List UInt8))
    (h : ∀ i ∈ items r pieces.flatten, i.size ≤ max) :
    feed { registry := r, maxSize := max } pieces =
      ((items r pieces.flatten).filterMap Item.outcome?,
        ((items r pieces.flatten).findSome? Item.unread?).map
          fun unread => { registry := r, maxSize := max, buffer := unread }) := by
  exact feed_eq_items_of_short (Envelope.short_of_lt (by decide)) h

/-- A request for a sum in two pieces, with an empty piece between them and most of a reserved hash
behind it, whose last bytes come with two bytes more. -/
theorem feed_eq_items_sum :
    let r := Registry.ofTypes [.calcSum]
    let pieces := [[0x0C, 0x9D, 0xFE], [],
      [0xA2, 0xF0, 0xEB, 0xD9, 0x18, 1, 0x3F, 0x80, 0, 0, 0, 0], [0, 0, 0, 0, 0, 0, 0x0C, 0x9D]]
    (∀ i ∈ items r pieces.flatten, i.size ≤ 13) ∧
    feed { registry := r, maxSize := 13 } pieces =
      ([.ok (.calcSum ⟨[⟨0x3F800000⟩]⟩), .error .nullPacket],
        some { registry := r, maxSize := 13, buffer := [0x0C, 0x9D] }) := by
  intro r pieces
  have h : items r pieces.flatten =
      [.packet (.calcSum ⟨[⟨0x3F800000⟩]⟩) 13, .null, .unfinished [0x0C, 0x9D]] := by
    have hp : Item.first r pieces.flatten = .packet (.calcSum ⟨[⟨0x3F800000⟩]⟩) 13 := by
      rw [Item.first, Envelope.read_eq, Registry.readHeaded_of_le (by decide)]
      rfl
    have hn : Item.first r (pieces.flatten.drop 13) = .null := by
      rw [Item.first, Envelope.read_eq, Registry.readHeaded_of_le (by decide)]
      rfl
    have hu : Item.first r ((pieces.flatten.drop 13).drop headerSize) = .unfinished [0x0C, 0x9D] :=
      Item.first_of_short (Envelope.short_of_lt (by decide))
    rw [Envelope.items_of_skip hp rfl, Envelope.items_of_skip hn rfl,
      Envelope.items_of_stop hu rfl]
  have hs : ∀ i ∈ items r pieces.flatten, i.size ≤ 13 := by
    rw [h]
    simp [Item.size, headerSize]
  exact ⟨hs, by rw [feed_eq_items r 13 pieces hs, h]; rfl⟩

end Decoder
end PacketRpc
