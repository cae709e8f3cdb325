import PacketRpc.Proofs.Exchange.Loops

/-!
# All ways of reading a packet agree

A packet can be read from bytes at hand, from a source read to its end, from a connection by a
server and from a connection by a client. Server and client ask a decoder again and again while the
bytes come, and stop as soon as it answers. What they come to is what the bytes at hand say
(`Envelope.readers_agree`): an end of the input within the packet is the only thing that they put
in words of their own.
-/

namespace PacketRpc

namespace Envelope

/-- An outcome in the words of one end of a connection: `null` for the reserved hash, `closed` for
an input that ends within the packet, and `failed` for any other error. -/
def outcomeAs {ε : Type} (null closed : ε) (failed : ProtocolError → ε) :
    Except ProtocolError (Option Packet) → Except ε Packet
  | .ok (some p) => .ok p
  | .ok none => .error null
  | .error (.short ..) => .error closed
  | .error e => .error (failed e)

section
variable {ε : Type} {null closed : ε} {failed : ProtocolError → ε}
  {o : Except ProtocolError (Option Packet)}

theorem outcomeAs_of_short (h : Short o) : outcomeAs null closed failed o = .error closed := by
  obtain ⟨needed, remaining, rfl⟩ := h
  rfl

/-- Where more input would change nothing, it does not count how the input ends. -/
theorem requestOf_eq_outcomeAs (h : ¬ Short o) (closed : ServiceError) :
    Service.requestOf o = outcomeAs .nullRequest closed .protocol o := by
  match o with
  | .ok (some _) | .ok none => rfl
  | .error e => cases e <;> first | rfl | exact absurd ⟨_, _, rfl⟩ h

theorem responseOf_eq_outcomeAs (h : ¬ Short o) (closed : ClientError) :
    Client.responseOf o = outcomeAs .nullResponse closed .protocol o := by
  match o with
  | .ok (some _) | .ok none => rfl
  | .error e => cases e <;> first | rfl | exact absurd ⟨_, _, rfl⟩ h

end

/-- What is no beginning has a front that yields it. -/
theorem yields_deserialize {r : Registry} {bs : List UInt8} (h : ¬ Short (deserialize r bs)) :
    ∃ cs rest, bs = cs ++ rest ∧ Yields (read r) cs (deserialize r bs) := by
  obtain ⟨cs, hs, hy⟩ := regular_read.yields (s := .start bs) rfl h
  exact ⟨cs, _, hs.rest, hy⟩

end Envelope

open Envelope (deserialize outcomeAs)

/-- A decoder that starts with nothing says what the bytes at hand say, or nothing where they are
too short. -/
theorem Decoder.await_start {r : Registry} {pieces : List (List UInt8)}
    (hl : pieces.flatten.length ≤ maxPacketSize) :
    (Short (deserialize r pieces.flatten) ∧ await { registry := r } pieces = none) ∨
    (¬ Short (deserialize r pieces.flatten) ∧
      await { registry := r } pieces = some (deserialize r pieces.flatten)) := by
  by_cases ho : Short (deserialize r pieces.flatten)
  · exact .inl ⟨ho, await_of_short (d := { registry := r }) ho hl⟩
  · obtain ⟨cs, rest, hb, hy⟩ := Envelope.yields_deserialize ho
    have hc : cs.length ≤ maxPacketSize := by
      rw [hb, List.length_append] at hl
      omega
    exact .inr ⟨ho, await_of_yields (d := { registry := r }) hy ho hc hb⟩

namespace Envelope

/-- **All ways of reading a packet agree.** However a stream is cut, a server and a client to whom
it comes over a connection that is then closed find in it what is found in the bytes at hand, and so
does who reads a source to its end. What follows a packet, or anything else that can be told, makes
no difference. -/
theorem readers_agree (r : Registry) (stream : List UInt8) (hl : stream.length ≤ maxPacketSize) :
    (∀ pieces : List (List UInt8), pieces.flatten = stream →
      (∀ s : Service, s.registry = r → s.readRequest { pieces } =
        outcomeAs .nullRequest .connectionClosed .protocol (deserialize r stream)) ∧
      (∀ c : Client, c.registry = r → c.readResponse { pieces } =
        outcomeAs .nullResponse .connectionClosed .protocol (deserialize r stream)) ∧
      readFrom r { pieces } = deserialize r stream) ∧
    ∀ front rest, stream = front ++ rest →
      (∀ needed remaining, deserialize r front ≠ .error (.short needed remaining)) →
      deserialize r stream = deserialize r front := by
  constructor
  · rintro pieces rfl
    have hr := Decoder.await_start (r := r) hl
    refine ⟨?server, ?client, rfl⟩
    case server =>
      rintro s rfl
      rw [Service.readRequest, Service.readPieces_eq]
      obtain ⟨ho, ha⟩ | ⟨ho, ha⟩ := hr
      · rw [ha, outcomeAs_of_short ho]
        rfl
      · rw [ha, ← requestOf_eq_outcomeAs ho]
        rfl
    case client =>
      rintro c rfl
      -- a client waits for bytes first, but a decoder without any has nothing to say
      rw [Client.readResponse, Client.readPieces_eq _ _ rfl]
      obtain ⟨ho, ha⟩ | ⟨ho, ha⟩ := hr
      · rw [ha, outcomeAs_of_short ho]
        rfl
      · rw [ha, ← responseOf_eq_outcomeAs ho]
        rfl
  · rintro front rest rfl h
    have ho : ¬ Short (deserialize r front) := fun ⟨needed, remaining, hs⟩ => h needed remaining hs
    obtain ⟨cs, more, rfl, hy⟩ := yields_deserialize ho
    show (read r (.start (cs ++ more ++ rest))).1 = _
    rw [List.append_assoc, read_start hy]

/-- A request for a sum with a byte behind it is one for all, cut within the hash and within its
value; its first seven bytes are the end of the connection for a server and a client, and too few
for who has them at hand. -/
theorem readers_agree_sum :
    let r := Registry.ofTypes [.calcSum]
    let s : Service := { registry := r, dispatcher := {}, readTimeout := .ofMilliseconds 1000 }
    let c : Client := { registry := r }
    let p := Packet.calcSum ⟨[⟨0x3F800000⟩]⟩
    let pieces := [[0x0C, 0x9D, 0xFE], [0xA2, 0xF0, 0xEB, 0xD9, 0x18, 1, 0x3F], [0x80, 0, 0, 7]]
    let cut := [[0x0C, 0x9D, 0xFE], [0xA2, 0xF0, 0xEB, 0xD9]]
    (s.readRequest { pieces } = .ok p ∧ c.readResponse { pieces } = .ok p ∧
      readFrom r { pieces } = .ok (some p)) ∧
    s.readRequest { pieces := cut } = .error .connectionClosed ∧
    c.readResponse { pieces := cut } = .error .connectionClosed ∧
    readFrom r { pieces := cut } = .error (.short 8 7) := by
  intro r s c p pieces cut
  have whole : deserialize r pieces.flatten = .ok (some p) := by
    rw [deserialize, read_eq, Registry.readHeaded_of_le (by decide)]
    rfl
  have short : deserialize r cut.flatten = .error (.short 8 7) := by
    rw [deserialize, read_eq, Registry.readHeaded_of_lt (by decide)]
    rfl
  have hl : pieces.flatten.length ≤ maxPacketSize := show 14 ≤ maxPacketSize by decide
  have hl' : cut.flatten.length ≤ maxPacketSize := show 7 ≤ maxPacketSize by decide
  obtain ⟨server, client, source⟩ := (readers_agree r pieces.flatten hl).1 pieces rfl
  obtain ⟨server', client', source'⟩ := (readers_agree r cut.flatten hl').1 cut rfl
  rw [whole] at server client source
  rw [short] at server' client' source'
  exact ⟨⟨server s rfl, client c rfl, source⟩, server' s rfl, client' c rfl, source'⟩

end Envelope
end PacketRpc
