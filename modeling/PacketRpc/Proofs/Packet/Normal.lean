import PacketRpc.Proofs.Packet.Description
import PacketRpc.Proofs.Packet.RoundTrip
import PacketRpc.Proofs.Schema.Respelling

/-!
# Reading makes packets normal

A packet that has been read can be written, and then stands in its normal form: no longer than it
stood, read as the same packet, and changed unless it deviated nowhere
(`Envelope.serialize_of_read`). The deviations of a body are those that its schema finds
(`respells_body`), and an induction over how deep references nest finds them in all that a packet
refers to (`respells_within`).
-/

namespace PacketRpc

/-! ## Deviations of references -/

namespace Registry

/-- Passes over a hash and, unless it is the reserved one, over the body of the type behind it. -/
def headedDeviations (r : Registry) (body : PacketType → Read (List Deviation)) :
    Read (List Deviation) := do
  let h : PacketHash := ⟨← Read.int64⟩
  if h.isNull then
    return []
  match r.typeOf? h with
  | none => Step.fail (.unknownHash h)
  | some t => body t

/-- Passes over a reference within which others nest at most `depth` deep. -/
def deviationsWithin (r : Registry) : (depth : Nat) → Read (List Deviation)
  | 0 => r.headedDeviations fun _ => Step.fail .nullPacket
  | depth + 1 => r.headedDeviations fun t => t.schema.deviations (deviationsWithin r depth)

/-- Passes over a reference, and lists where the packet and all that it refers to deviate. -/
def deviations (r : Registry) : Read (List Deviation) := fun s =>
  r.deviationsWithin (s.remaining / headerSize) s

end Registry

/-! ## Bodies -/

theorem Packet.eq_of_fields {p q : Packet} (ht : p.type = q.type) (hf : p.fields = q.fields) :
    p = q := by
  have hp := p.ofFields?_fields
  rw [ht, hf, q.ofFields?_fields] at hp
  exact (Option.some.inj hp).symm

/-- A body is respelled, as its schema says, where references are. -/
theorem respells_body {reference : Read (Option Packet)} {deviations : Read (List Deviation)}
    (hr : Respells reference deviations fun p => some (Packet.writeReference p)) (t : PacketType) :
    Respells (Packet.readBody reference t) (t.schema.deviations deviations)
      fun p => some p.writeBody := by
  intro s p u hp
  have ht : p.type = t := Packet.type_of_readBody t hp
  obtain ⟨w, ds, hw, hd, hs⟩ :=
    respells_schema hr t.schema ((Packet.read_schema t).ok_of_ok (Step.bind_of_ok hp _))
  have hf : t.schema.write? p.fields = some p.writeBody := ht ▸ p.write?_fields
  obtain rfl : p.writeBody = w := Option.some.inj (hf.symm.trans hw)
  refine ⟨_, ds, rfl, hd, hs.imp fun v v' hv => ?_⟩
  -- a packet of the type that has the fields of `p` is `p`
  obtain ⟨q, v'', hq, hv''⟩ := Step.bind_eq_ok ((Packet.read_schema t).symm.ok_of_ok hv)
  obtain ⟨hf, rfl⟩ := Prod.mk.inj hv''
  have hq' : q.type = t := Packet.type_of_readBody t hq
  rwa [Packet.eq_of_fields (hq'.trans ht.symm) (Except.ok.inj hf)] at hq

/-! ## References -/

namespace Registry

variable {r : Registry}

theorem respells_headed (hr : r.Built) {body : PacketType → Read Packet}
    {deviations : PacketType → Read (List Deviation)}
    (hb : ∀ t, Respells (body t) (deviations t) fun p => some p.writeBody)
    (ht : ∀ t, Step.Gives (fun p => p.type = t) (body t)) :
    Respells (r.readHeaded body) (r.headedDeviations deviations)
      fun p => some (Packet.writeReference p) := by
  intro s p t hx
  obtain ⟨v, u, hv, hx⟩ := Step.bind_eq_ok hx
  have hs := respelling_int64 hv
  by_cases hn : (PacketHash.mk v).isNull = true
  · simp only [if_pos hn] at hx
    cases hx
    obtain rfl : v = 0 := by simpa [PacketHash.isNull] using hn
    refine ⟨_, [], rfl, ?_, ?_⟩
    · rw [headedDeviations, Step.bind_of_ok hv]
      rfl
    · rw [Packet.writeReference]
      exact hs.last rfl
  · simp only [if_neg hn] at hx
    -- the same type is found by the read and by the walk over its deviations
    rcases hq : r.typeOf? ⟨v⟩ with _ | q
    · rw [hq] at hx
      cases hx
    · rw [hq] at hx
      obtain ⟨p, u', hp, hu⟩ := Step.bind_eq_ok hx
      cases hu
      obtain ⟨w, ds, hw, hd, hws⟩ := hb q hp
      cases hw
      -- the type behind the hash has that hash, and so has the packet
      have hh : p.hash = ⟨v⟩ := by rw [Packet.hash, ht q hp, (hr.hash_of_typeOf? hq).1]
      refine ⟨_, ds, rfl, ?_, ?_⟩
      · rw [headedDeviations, Step.bind_of_ok hv]
        simp only [if_neg hn, hq]
        exact hd
      · rw [Packet.writeReference, hh]
        refine hs.bind ?_
        simp only [if_neg hn, hq]
        exact hws.last rfl

theorem respells_within (hr : r.Built) (d : Nat) :
    Respells (r.readReferenceWithin d) (r.deviationsWithin d)
      fun p => some (Packet.writeReference p) := by
  induction d with
  | zero =>
    refine respells_headed hr (fun t s p u h => ?_) fun t s p u h => ?_
    · cases h
    · cases h
  | succ d ih => exact respells_headed hr (respells_body ih) Packet.type_of_readBody

end Registry

/-! ## Envelopes -/

namespace Envelope

variable {r : Registry} {b : List UInt8} {p : Packet} {t : Reader}

/-- **Reading makes a packet normal.** A packet that has been read can be written. What is written
is no longer than what was read, and is read to its end as the same packet. It is what was read if
and only if that deviates nowhere: no boolean is a byte other than 0 and 1, no length below 255
takes five bytes, and no bit is set behind the last of some flags. -/
theorem serialize_of_read (hr : r.Built) (h : read r (.start b) = (.ok (some p), t)) :
    ∃ c ds, serialize p = .ok c ∧ c.length ≤ t.position ∧
      read r (.start c) = (.ok (some p), ⟨c.length, []⟩) ∧
      r.deviations (.start b) = (.ok ds, t) ∧ (c = b.take t.position ↔ ds = []) := by
  obtain ⟨w, ds, hw, hd, bs, c, hs, hc, hy, hl, hi⟩ := Registry.respells_within hr _ h
  cases hw
  have hb : b = bs ++ t.rest := hs.rest
  have hp : t.position = bs.length := hs.position.trans (Nat.zero_add _)
  refine ⟨c, ds, serialize_eq_ok.2 (hc _), by rw [hp]; exact hl, ?_, hd, ?_⟩
  · -- what is no longer than the input does not nest deeper
    have hcb : (Reader.start c).remaining ≤ (Reader.start b).remaining :=
      Nat.le_trans hl (Nat.le.intro hs.remaining_eq.symm)
    have hc := hy 0 []
    rw [List.append_nil, Nat.zero_add] at hc
    exact (Registry.readReference_of_le (Nat.div_le_div_right hcb)).trans hc
  · rw [hp, hb, List.take_left]
    exact hi

/-- A packet whose boolean is the byte 2 and whose text of one byte has its length in five. -/
theorem serialize_of_read_primitives :
    let r := Registry.ofTypes [.primitives]
    let b := [0x1D, 0x11, 0xBE, 0x08, 0x6A, 0x1F, 0x3E, 0x8B, 2, 0, 0, 0, 7, 0, 0, 0, 0, 0, 0, 0, 9,
      255, 0, 0, 0, 1, 65, 99]
    let p := Packet.primitives ⟨true, 7, 9, "A"⟩
    (r.Built ∧ read r (.start b) = (.ok (some p), ⟨27, [99]⟩)) ∧
    ∃ c ds, serialize p = .ok c ∧ c.length ≤ 27 ∧
      read r (.start c) = (.ok (some p), ⟨c.length, []⟩) ∧
      r.deviations (.start b) = (.ok ds, ⟨27, [99]⟩) ∧ (c = b.take 27 ↔ ds = []) := by
  intro r b p
  have hr : r.Built := .ofTypes _
  have hBool : Read.bool ⟨8, b.drop 8⟩ = (.ok true, ⟨9, b.drop 9⟩) := rfl
  have hInt : (Read.scalar : Read Int32) ⟨9, b.drop 9⟩ = (.ok 7, ⟨13, b.drop 13⟩) := rfl
  have hLong : (Read.scalar : Read Int64) ⟨13, b.drop 13⟩ = (.ok 9, ⟨21, b.drop 21⟩) := rfl
  have hLength : Read.length ⟨21, b.drop 21⟩ = (.ok 1, ⟨26, b.drop 26⟩) := rfl
  have hBytes : Read.bytes 1 ⟨26, b.drop 26⟩ = (.ok [65], ⟨27, [99]⟩) := rfl
  have hText : Read.text ⟨21, b.drop 21⟩ = (.ok "A", ⟨27, [99]⟩) := by
    refine (Step.bind_of_ok hLength _).trans ?_
    refine (Step.bind_of_ok hBytes _).trans ?_
    rw [show String.fromUTF8? [65].toByteArray = some "A" from fromUTF8?_textBytes "A"]
    rfl
  have hBody : Packet.readBody r.readReference .primitives ⟨8, b.drop 8⟩ =
      (.ok p, ⟨27, [99]⟩) := by
    refine (Step.bind_of_ok hBool _).trans ?_
    refine (Step.bind_of_ok hInt _).trans ?_
    refine (Step.bind_of_ok hLong _).trans ?_
    exact Step.bind_of_ok hText _
  have h : read r (.start b) = (.ok (some p), ⟨27, [99]⟩) := by
    rw [read_eq, Registry.readHeaded_of_le (by decide)]
    exact Step.bind_of_ok hBody _
  exact ⟨⟨hr, h⟩, serialize_of_read hr h⟩

end Envelope
end PacketRpc
