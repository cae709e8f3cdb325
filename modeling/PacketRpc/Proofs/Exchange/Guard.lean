import PacketRpc.Proofs.Exchange.Limit
import PacketRpc.Proofs.Packet.RoundTrip
import PacketRpc.Proofs.Wire.Errors

/-!
# What may wait on a connection

Server and client ask a decoder again and again, and what they read is its first answer
(`Service.readPieces_eq_asked`, `Client.readPieces_eq_asked`). It has no more than one read beyond
the limit to keep each time (`Decoder.buffered_asked`), since it answers as soon as it is beyond. So
the limit is exact but for one read (`Envelope.limit_guards`): an envelope within the limit comes
through however it is cut, and one that is longer by more than a read never does.
-/

namespace PacketRpc

open Envelope (deserialize)

namespace Decoder

variable {d : Decoder} {pieces : List (List UInt8)} {cs rest : List UInt8}
  {o : Except ProtocolError (Option Packet)}

/-- The decoder as it is each time that it is asked while the pieces come, up to its first
answer. -/
def asked (d : Decoder) : List (List UInt8) → List Decoder
  | [] => [d]
  | piece :: pieces => d :: if d.front?.isNone then asked (d.extend piece) pieces else []

theorem asked_eq_cons (d : Decoder) (pieces : List (List UInt8)) :
    d.asked pieces = d :: (d.asked pieces).tail := by
  cases pieces <;> rfl

/-- Nothing is put into the buffer by asking. -/
theorem buffered_decode_le (d : Decoder) : d.decode.2.buffered ≤ d.buffered := by
  unfold decode buffered
  repeat' split
  all_goals simp

/-! ## How much waits -/

/-- **What waits is never more than one read beyond the limit.** -/
theorem buffered_asked (hh : headerSize ≤ d.maxSize) (hd : d.buffered ≤ d.maxSize + readSize)
    (hp : ∀ p ∈ pieces, p.length ≤ readSize) :
    ∀ k ∈ d.asked pieces, k.buffered ≤ d.maxSize + readSize := by
  induction pieces generalizing d with
  | nil =>
    intro k hk
    rw [asked, List.mem_singleton] at hk
    exact hk ▸ hd
  | cons piece pieces ih =>
    intro k hk
    rw [asked, List.mem_cons] at hk
    obtain rfl | hk := hk
    · exact hd
    · rcases hf : d.front? with _ | o
      · rw [hf] at hk
        -- a decoder without an answer is within the limit when the next piece comes
        have hl : (d.extend piece).buffered ≤ d.maxSize + readSize := by
          rw [buffered, extend, List.length_append]
          exact Nat.add_le_add (short_of_front hh hf).2 (hp piece List.mem_cons_self)
        exact ih (d := d.extend piece) hh hl (fun p h => hp p (List.mem_cons_of_mem _ h)) k hk
      · rw [hf] at hk
        cases hk

/-! ## What is too long -/

/-- What goes on for more than a read beyond the limit is found to be too large. -/
theorem await_of_beyond (hh : headerSize ≤ d.maxSize) (hd : d.buffered ≤ d.maxSize + readSize)
    (hp : ∀ p ∈ pieces, p.length ≤ readSize) (hy : Yields (Envelope.read d.registry) cs o)
    (hl : d.maxSize + readSize < cs.length) (he : d.buffer ++ pieces.flatten = cs ++ rest) :
    ∃ size, d.maxSize < size ∧ size ≤ d.maxSize + readSize ∧
      d.await pieces = some (.error (.packetTooLarge size d.maxSize)) := by
  have hs : Short (deserialize d.registry d.buffer) :=
    Envelope.regular_read.short_of_lt hy he.symm (Nat.lt_of_le_of_lt hd hl) 0
  induction pieces generalizing d with
  | nil =>
    -- all that is to come has come, which is more than may wait
    have := congrArg List.length he
    rw [List.flatten_nil, List.append_nil, List.length_append] at this
    rw [buffered] at hd
    omega
  | cons piece pieces ih =>
    rcases Nat.lt_or_ge d.maxSize d.buffered with hm | hm
    · exact ⟨_, hm, hd, await_of_some (front?_of_oversized hs hh hm) _⟩
    · have hx : (d.extend piece).buffered ≤ d.maxSize + readSize := by
        rw [buffered, extend, List.length_append]
        exact Nat.add_le_add hm (hp piece List.mem_cons_self)
      have hn : (d.extend piece).buffer ++ pieces.flatten = cs ++ rest := by
        rw [← he]
        simp [extend]
      rw [await, front?_of_short hs hm, Option.none_or]
      exact ih (d := d.extend piece) hh hx (fun p h => hp p (List.mem_cons_of_mem _ h)) hy hl hn
        (Envelope.regular_read.short_of_lt hy hn.symm (Nat.lt_of_le_of_lt hx hl) 0)

end Decoder

/-! ## The two loops -/

/-- What a server reads is the first answer of its decoder. -/
theorem Service.readPieces_eq_asked (limit : Duration) (ending : InputEnd) (d : Decoder)
    (pieces : List (List UInt8)) :
    readPieces limit ending d pieces =
      ((d.asked pieces).findSome? poll).getD (.error (cutShort limit ending)) := by
  induction pieces generalizing d with
  | nil =>
    rw [readPieces, Decoder.asked, List.findSome?_singleton]
  | cons piece pieces ih =>
    rw [readPieces, Decoder.asked, List.findSome?_cons, poll_eq]
    rcases hf : d.front? with _ | o
    · exact ih _
    · rfl

/-- A client asks its decoder after the first read only. -/
theorem Client.readPieces_eq_asked (limit : Duration) (ending : InputEnd) {d : Decoder}
    (hd : d.front? = none) (pieces : List (List UInt8)) :
    readPieces limit ending d pieces =
      ((d.asked pieces).tail.findSome? poll).getD (.error (cutShort limit ending)) := by
  induction pieces generalizing d with
  | nil => rfl
  | cons piece pieces ih =>
    rw [readPieces, Decoder.asked, hd, List.tail_cons, Option.isNone_none, if_pos rfl,
      Decoder.asked_eq_cons, List.findSome?_cons, poll_eq]
    rcases hf : (d.extend piece).front? with _ | o
    · exact ih hf
    · rfl

/-! ## Cutting bytes into reads -/

namespace Input

theorem wellCut_cut (n : Nat) (bs : List UInt8) :
    ∀ p ∈ cut n bs, p ≠ [] ∧ p.length ≤ readSize := by
  induction n generalizing bs with
  | zero => exact fun p hp => absurd hp List.not_mem_nil
  | succ n ih =>
    intro p hp
    rw [cut] at hp
    split at hp
    · cases hp
    · next hb =>
      obtain rfl | hp := List.mem_cons.1 hp
      · have hb : bs ≠ [] := fun h => hb (List.isEmpty_iff.2 h)
        exact ⟨by simpa [readSize] using hb, List.length_take_le _ _⟩
      · exact ih _ p hp

theorem flatten_cut {n : Nat} {bs : List UInt8} (h : bs.length ≤ n) : (cut n bs).flatten = bs := by
  induction n generalizing bs with
  | zero => rw [cut, List.flatten_nil, List.length_eq_zero_iff.1 (Nat.le_zero.1 h)]
  | succ n ih =>
    rw [cut]
    split
    · next hb => rw [List.flatten_nil, List.isEmpty_iff.1 hb]
    · have hd : (bs.drop readSize).length ≤ n := by
        rw [List.length_drop, readSize]
        omega
      rw [List.flatten_cons, ih hd, List.take_append_drop]

/-- Bytes that were sent come in pieces that reads can take. -/
theorem wellCut_ofBytes (bs : List UInt8) (ending : InputEnd) : (ofBytes bs ending).WellCut :=
  wellCut_cut _ _

theorem bytes_ofBytes (bs : List UInt8) (ending : InputEnd) : (ofBytes bs ending).bytes = bs :=
  flatten_cut (Nat.le_refl _)

end Input

/-! ## The limit guards both ends -/

namespace Envelope

variable {r : Registry}

/-- Bytes that are read as an envelope, up to the last, yield it wherever they stand. -/
theorem yields_of_read {cs : List UInt8} {o : Option Packet}
    (h : read r (.start cs) = (.ok o, ⟨cs.length, []⟩)) : Yields (read r) cs (.ok o) := by
  obtain ⟨bs, hs, hy⟩ := regular_read.yields h (not_short_ok o)
  obtain rfl : cs = bs := by simpa [Reader.start] using hs.rest
  exact hy

/-- What both ends read is what a decoder that starts with nothing comes to. -/
theorem readers_of_await {i : Input} {o : Except ProtocolError (Option Packet)}
    (h : Decoder.await { registry := r } i.pieces = some o) :
    (∀ s : Service, s.registry = r → s.readRequest i = Service.requestOf o) ∧
    ∀ c : Client, c.registry = r → c.readResponse i = Client.responseOf o := by
  constructor
  · rintro s rfl
    rw [Service.readRequest, Service.readPieces_eq, h]
    rfl
  · rintro c rfl
    rw [Client.readResponse, Client.readPieces_eq _ _ rfl, h]
    rfl

/-- **The limit bounds what waits, and is exact but for one read.** However an input is cut into
reads, the decoders that a server or a client asks in turn hold at most one read more than the
limit, before and after they are asked, and their first answer is what is read. Where the input
starts with a whole envelope, up to the limit it is this envelope, and more than a read beyond the
limit it is the error that too much is waiting. -/
theorem limit_guards (r : Registry) {i : Input} (hi : i.WellCut) :
    (∀ d ∈ Decoder.asked { registry := r } i.pieces,
      d.buffered ≤ maxPacketSize + readSize ∧ d.decode.2.buffered ≤ maxPacketSize + readSize) ∧
    (∀ s : Service, s.registry = r → s.readRequest i =
      ((Decoder.asked { registry := r } i.pieces).findSome? Service.poll).getD
        (.error (Service.cutShort s.readTimeout i.ending))) ∧
    (∀ c : Client, c.registry = r → c.readResponse i =
      ((Decoder.asked { registry := r } i.pieces).tail.findSome? Client.poll).getD
        (.error (Client.cutShort c.options.readTimeout i.ending))) ∧
    ∀ cs rest o, i.bytes = cs ++ rest → read r (.start cs) = (.ok o, ⟨cs.length, []⟩) →
      (cs.length ≤ maxPacketSize →
        (∀ s : Service, s.registry = r → s.readRequest i = Service.requestOf (.ok o)) ∧
        ∀ c : Client, c.registry = r → c.readResponse i = Client.responseOf (.ok o)) ∧
      (maxPacketSize + readSize < cs.length →
        ∃ size, maxPacketSize < size ∧ size ≤ maxPacketSize + readSize ∧
          (∀ s : Service, s.registry = r →
            s.readRequest i = .error (.protocol (.packetTooLarge size maxPacketSize))) ∧
          ∀ c : Client, c.registry = r →
            c.readResponse i = .error (.protocol (.packetTooLarge size maxPacketSize))) := by
  have hh : headerSize ≤ maxPacketSize := by decide
  have hp : ∀ p ∈ i.pieces, p.length ≤ readSize := fun p h => (hi p h).2
  refine ⟨?waits, ?server, ?client, ?front⟩
  case waits =>
    intro d hd
    have hw := Decoder.buffered_asked (d := { registry := r }) hh (Nat.zero_le _) hp d hd
    exact ⟨hw, Nat.le_trans d.buffered_decode_le hw⟩
  case server =>
    rintro s rfl
    exact Service.readPieces_eq_asked _ _ _ _
  case client =>
    rintro c rfl
    exact Client.readPieces_eq_asked _ _ rfl _
  case front =>
    intro cs rest o hb hr
    have hy := yields_of_read hr
    refine ⟨fun hl => readers_of_await ?_, fun hl => ?_⟩
    · exact Decoder.await_of_yields (d := { registry := r }) hy (not_short_ok o) hl hb
    · obtain ⟨size, hs, hs', ha⟩ :=
        Decoder.await_of_beyond (d := { registry := r }) hh (Nat.zero_le _) hp hy hl hb
      exact ⟨size, hs, hs', readers_of_await ha⟩

/-- The envelope of a long text: its hash, its length in the long form and its bytes. -/
theorem serialize_echo {t : String} (hl : longLengthMark ≤ t.utf8ByteSize)
    (hm : t.utf8ByteSize ≤ maxLength) : serialize (.echo ⟨t⟩) =
      .ok (BigEndian.bytes 8 PacketType.echo.hash.value.toUInt64.toNat ++
        (UInt8.ofNat longLengthMark :: BigEndian.bytes 4 t.utf8ByteSize ++ Write.textBytes t)) := by
  have ht : Write.length t.utf8ByteSize =
      Write.bytes (UInt8.ofNat longLengthMark :: BigEndian.bytes 4 t.utf8ByteSize) := by
    rw [Write.length, if_neg (Nat.not_lt.2 hl), if_pos hm]
  rw [serialize_eq_ok, write, Packet.writeReference, Packet.writeBody]
  show (Write.int64 PacketType.echo.hash.value >>= fun _ => Write.text t) Writer.empty = _
  rw [Write.text, ht, ← Write.bytes_append, Write.int64, Write.word, ← Write.bytes_append]
  rfl

/-- A request of eleven bytes that comes in three pieces with some more behind it; and a text that
no limit allows for. -/
theorem limit_guards_echo :
    let r := Registry.ofTypes [.echo]
    let s : Service := { registry := r, dispatcher := {}, readTimeout := .ofMilliseconds 1000 }
    let c : Client := { registry := r }
    let i : Input := { pieces := [[7, 180, 21, 134, 32], [62, 55, 251, 2, 104], [105, 7]] }
    let n := maxPacketSize + readSize
    (i.WellCut ∧ s.readRequest i = .ok (.echo ⟨"hi"⟩) ∧ c.readResponse i = .ok (.echo ⟨"hi"⟩)) ∧
    ∃ bs, serialize (.echo ⟨String.ofList (List.replicate n 'a')⟩) = .ok bs ∧
      (Input.ofBytes bs).WellCut ∧
      ∃ size, maxPacketSize < size ∧ size ≤ maxPacketSize + readSize ∧
        s.readRequest (.ofBytes bs) = .error (.protocol (.packetTooLarge size maxPacketSize)) ∧
        c.readResponse (.ofBytes bs) = .error (.protocol (.packetTooLarge size maxPacketSize)) := by
  intro r s c i n
  have hi : i.WellCut := by decide
  constructor
  · have hr : read r (.start [7, 180, 21, 134, 32, 62, 55, 251, 2, 104, 105]) =
        (.ok (some (.echo ⟨"hi"⟩)), ⟨11, []⟩) := by
      rw [read_eq, Registry.readHeaded_of_le (by decide)]
      rfl
    obtain ⟨server, client⟩ := ((limit_guards r hi).2.2.2 _ [7] _ rfl hr).1 (by decide)
    exact ⟨hi, server s rfl, client c rfl⟩
  · have ht : (String.ofList (List.replicate n 'a')).utf8ByteSize = n :=
      Text.utf8ByteSize_replicate rfl n
    have hn : longLengthMark ≤ n ∧ n ≤ maxLength := by decide
    obtain ⟨bs, hs, hl⟩ : ∃ bs, serialize (.echo ⟨String.ofList (List.replicate n 'a')⟩) = .ok bs ∧
        n < bs.length := by
      refine ⟨_, serialize_echo (ht.symm ▸ hn.1) (ht.symm ▸ hn.2), ?_⟩
      rw [List.length_append, List.length_append, Write.length_textBytes, ht,
        BigEndian.length_bytes]
      omega
    have hp : (Packet.echo ⟨String.ofList (List.replicate n 'a')⟩).WellFormed r :=
      Packet.wellFormed_of_references (by decide) trivial rfl
    have hy := yields_serialize (r := r) (.ofTypes _) hp hs
    have hw := Input.wellCut_ofBytes bs .closed
    obtain ⟨size, hm, hm', server, client⟩ :=
      ((limit_guards r hw).2.2.2 bs [] _ (by rw [Input.bytes_ofBytes, List.append_nil])
        (by simpa [Reader.start] using hy 0 [])).2 hl
    exact ⟨bs, hs, hw, size, hm, hm', server s rfl, client c rfl⟩

end Envelope
end PacketRpc
