import PacketRpc.Client.Exchange
import PacketRpc.Proofs.Stream.Decoder
import PacketRpc.Service.Connection

/-!
# Reading one packet from a connection

Server and client read in loops of their own, and ask their decoders at different times. Both come
down to `Decoder.await`, which gives what stands at the front of the input, however the input is cut
(`Decoder.await_of_yields`), or nothing where that is too short to tell (`Decoder.await_of_short`).
-/

namespace PacketRpc

/-! ## Waiting for one packet -/

namespace Decoder

variable {d : Decoder} {cs rest : List UInt8} {o : Except ProtocolError (Option Packet)}
  {pieces : List (List UInt8)}

/-- What stands at the front of the buffer, once that can be told. -/
def front? (d : Decoder) : Option (Except ProtocolError (Option Packet)) :=
  match d.decode.1 with
  | .ok none => none
  | .error .nullPacket => some (.ok none)
  | o => some o

/-- What stands at the front of the buffer and the pieces to come, as soon as that can be told. -/
def await (d : Decoder) : List (List UInt8) → Option (Except ProtocolError (Option Packet))
  | [] => d.front?
  | piece :: pieces => d.front?.or (await (d.extend piece) pieces)

theorem front?_of_yields (hb : d.buffer = cs ++ rest)
    (hy : Yields (Envelope.read d.registry) cs o) (ho : ¬ Short o) : d.front? = some o := by
  match o with
  | .ok (some p) => simp only [front?, decode_of_packet hb hy]
  | .ok none => simp only [front?, decode_of_null hb hy]
  | .error e =>
    have he : e.isIncomplete = false := Bool.eq_false_iff.2 fun k => ho (short_error_iff.2 k)
    have hn : e ≠ .nullPacket := by
      rintro rfl
      cases Envelope.ofReading_of_yields hy
    rw [front?, decode_of_undecodable hb hy he]
    split <;> simp_all

theorem front?_of_short (hs : Short (Envelope.read d.registry (.start d.buffer)).1)
    (hm : d.buffered ≤ d.maxSize) : d.front? = none := by
  simp only [front?, decode_of_short_le hs hm]

theorem await_of_some (h : d.front? = some o) (pieces : List (List UInt8)) :
    d.await pieces = some o := by
  cases pieces <;> simp [await, h]

/-- **One way or another it is the front that comes**, if the decoder allows for its size. -/
theorem await_of_yields (hy : Yields (Envelope.read d.registry) cs o) (ho : ¬ Short o)
    (hm : cs.length ≤ d.maxSize) (he : d.buffer ++ pieces.flatten = cs ++ rest) :
    d.await pieces = some o := by
  induction pieces generalizing d with
  | nil =>
    rw [List.flatten_nil, List.append_nil] at he
    exact await_of_some (front?_of_yields he hy ho) _
  | cons piece pieces ih =>
    obtain ⟨u, hu⟩ | ⟨hl, hs⟩ := arrived_or_short hy he
    · exact await_of_some (front?_of_yields hu hy ho) _
    · rw [await, front?_of_short hs (by omega), Option.none_or]
      exact ih hy hm (by rw [← he]; simp [extend])

/-- Where all that comes is too short to tell, nothing can be told. -/
theorem await_of_short
    (hs : Short (Envelope.read d.registry (.start (d.buffer ++ pieces.flatten))).1)
    (hm : (d.buffer ++ pieces.flatten).length ≤ d.maxSize) : d.await pieces = none := by
  induction pieces generalizing d with
  | nil =>
    rw [List.flatten_nil, List.append_nil] at hs hm
    exact front?_of_short hs hm
  | cons piece pieces ih =>
    have hd := Envelope.regular_read.short_of_append hs
    rw [await, front?_of_short hd (Nat.le_trans (by simp [buffered]) hm), Option.none_or]
    exact ih (by simpa [extend] using hs) (by simpa [extend] using hm)

end Decoder

/-! ## The two loops -/

namespace Service

/-- What a server makes of the front of its input. -/
def requestOf : Except ProtocolError (Option Packet) → Except ServiceError Packet
  | .ok (some p) => .ok p
  | .ok none => .error .nullRequest
  | .error e => .error (.protocol e)

theorem poll_eq (d : Decoder) : poll d = d.front?.map requestOf := by
  unfold poll Decoder.front?
  split <;> simp_all [requestOf]

theorem readPieces_eq (limit : Duration) (ending : InputEnd) (d : Decoder)
    (pieces : List (List UInt8)) :
    readPieces limit ending d pieces =
      ((d.await pieces).map requestOf).getD (.error (cutShort limit ending)) := by
  induction pieces generalizing d with
  | nil => rw [readPieces, poll_eq, Decoder.await]
  | cons piece pieces ih =>
    rw [readPieces, poll_eq, Decoder.await, ih]
    cases d.front? <;> rfl

end Service

namespace Client

/-- What a client makes of the front of its input. -/
def responseOf : Except ProtocolError (Option Packet) → Except ClientError Packet
  | .ok (some p) => .ok p
  | .ok none => .error .nullResponse
  | .error e => .error (.protocol e)

theorem poll_eq (d : Decoder) : poll d = d.front?.map responseOf := by
  unfold poll Decoder.front?
  split <;> simp_all [responseOf]

/-- A client does not ask its decoder before the first read. -/
theorem readPieces_eq (limit : Duration) (ending : InputEnd) {d : Decoder} (hd : d.front? = none)
    (pieces : List (List UInt8)) :
    readPieces limit ending d pieces =
      ((d.await pieces).map responseOf).getD (.error (cutShort limit ending)) := by
  induction pieces generalizing d with
  | nil => rw [readPieces, Decoder.await, hd]; rfl
  | cons piece pieces ih =>
    rw [readPieces, poll_eq, Decoder.await, hd, Option.none_or]
    rcases hp : (d.extend piece).front? with _ | o
    · exact ih hp
    · rw [Decoder.await_of_some hp]
      rfl

end Client
end PacketRpc
