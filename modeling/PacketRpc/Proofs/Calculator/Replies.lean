import PacketRpc.Calculator.Daemon
import PacketRpc.Proofs.Exchange.Limit
import PacketRpc.Proofs.Exchange.Transparency
import PacketRpc.Proofs.Wire.Errors

/-!
# The calculator answers every connection

Whatever a client sends, the calculator finds something at the front of it, and `reply` says what it
answers. Every error is answered with its wording, and a wording can always be sent: those of the
errors of reading are brief (`brief_of_read`), since the calculator's packets hold numbers, texts
and one small enumeration, and the others are fixed but for the name of a packet. So one whole
envelope goes back on every connection that does not fail itself (`answers_every_connection`).
-/

namespace PacketRpc.Calculator

open Envelope (deserialize serialize)

/-- The packet that tells of an error. -/
def refusal (e : ServiceError) : Packet := .rpcError ⟨e.message⟩

/-- What the calculator replies to what stands at the front of a stream. -/
def reply : Except ProtocolError (Option Packet) → Packet
  | .ok (some (.calcSum c)) => .rpcResult (calculateSum c)
  | .ok (some (.calcMean c)) =>
    if c.values = [] then refusal (.handlerFailed "No values provided")
    else .rpcResult ⟨toBinary (mean c.kind (c.values.map ofBinary))⟩
  | .ok (some p) => refusal (.handlerMissing p.name)
  | .ok none => refusal .nullRequest
  | .error (.short ..) => refusal .connectionClosed
  | .error e => refusal (.protocol e)

/-- `q` is a reply that is due to a stream. Where what stands at the front is settled within the
limit, it is the reply to that. Beyond the limit it may instead be the error that too much is
waiting, and it is that error if the stream ends with nothing settled. -/
structure Due (bs : List UInt8) (q : Packet) : Prop where
  within : ¬ Overruns registry maxPacketSize bs → q = reply (deserialize registry bs)
  beyond : Overruns registry maxPacketSize bs →
    (¬ Short (deserialize registry bs) ∧ q = reply (deserialize registry bs)) ∨
    ∃ size, maxPacketSize < size ∧ size ≤ maxPacketSize + readSize ∧
      q = refusal (.protocol (.packetTooLarge size maxPacketSize))

/-! ## What is answered -/

theorem result_mean (c : CalcMean) :
    (meanHandler.handle c).result =
      if c.values = [] then .error (.handlerFailed "No values provided")
      else .ok (.rpcResult ⟨toBinary (mean c.kind (c.values.map ofBinary))⟩) := by
  unfold meanHandler calculateMean
  by_cases hc : c.values = [] <;> simp [hc, Handled.result]

theorem answer?_eq_reply (p : Packet) : dispatcher.answer? p = some (reply (.ok (some p))) := by
  cases p with
  | calcMean c =>
    have hd : dispatcher.dispatch (.calcMean c) = (meanHandler.handle c).result := rfl
    rw [Dispatcher.answer?, hd, result_mean, reply]
    by_cases hc : c.values = []
    · rw [if_pos hc, if_pos hc]
      rfl
    · rw [if_neg hc, if_neg hc]
  -- the answer to a sum is its response, and no other type has a handler
  | _ => rfl

variable {o : ServerOptions} {number : Nat} {i : Input}

theorem response_of_error {e : ServiceError}
    (h : ((server o).service number).readRequest i = .error e) :
    (((server o).service number).serve i).response = some (refusal e) := by
  simp only [Service.serve, h]
  rfl

theorem response_of_settled {x : Except ProtocolError (Option Packet)} (hx : ¬ Short x)
    (h : ((server o).service number).readRequest i = Service.requestOf x) :
    (((server o).service number).serve i).response = some (reply x) := by
  match x with
  | .ok (some p) => rw [Service.response_serve h, ← answer?_eq_reply]; rfl
  | .ok none => exact response_of_error h
  | .error e =>
    rw [response_of_error h]
    cases e <;> first | rfl | exact absurd ⟨_, _, rfl⟩ hx

/-! ## Every wording can be sent -/

/-- A result, or an error whose wording can be written. -/
inductive Sendable : Packet → Prop
  | result (c : RpcResult) : Sendable (.rpcResult c)
  | error {c : RpcError} (h : c.message.utf8ByteSize ≤ maxLength) : Sendable (.rpcError c)

theorem sendable_refusal {e : ServiceError} (h : e.message.length ≤ 200) :
    Sendable (refusal e) := by
  have hb := Text.utf8ByteSize_le e.message
  have hl : 4 * 200 ≤ maxLength := by decide
  exact .error (by dsimp only; omega)

theorem sendable_missing (p : Packet) : Sendable (refusal (.handlerMissing p.name)) := by
  have hn : ∀ t : PacketType, t.name.length ≤ 16 := by
    intro t
    cases t <;> decide
  refine sendable_refusal ?_
  have := hn p.type
  show ("no handler registered for " ++ p.type.name).length ≤ 200
  rw [String.length_append]
  show 26 + _ ≤ 200
  omega

theorem sendable_protocol {e : ProtocolError} (h : e.message.length ≤ 100) :
    Sendable (refusal (.protocol e)) := by
  refine sendable_refusal ?_
  show ("protocol error: " ++ e.message).length ≤ 200
  rw [String.length_append]
  show 16 + _ ≤ 200
  omega

section
open ProtocolError

theorem brief_of_body {t : PacketType} (ht : t ∈ packetTypes) (reference : Read (Option Packet)) :
    Step.FailsWith Brief (Packet.readBody reference t) := by
  have float : Step.FailsWith Brief Read.float := (Read.failsWith_word brief_short 4).map _
  have floats := Read.failsWith_sequence brief_short brief_invalidLength float
  have kind : Step.FailsWith Brief (Enumerated.read : Read MeanKind) :=
    Read.failsWith_member brief_short (brief_badEnum (by decide) (by decide))
  have text := Read.failsWith_text brief_short brief_invalidLength brief_invalidText
  obtain rfl | rfl | rfl | rfl : t = .calcSum ∨ t = .calcMean ∨ t = .rpcResult ∨ t = .rpcError := by
    simpa [packetTypes] using ht
  · exact floats.map _
  · exact kind.bind fun k => floats.map _
  · exact float.map _
  · exact text.map _

theorem brief_of_read : Step.FailsWith Brief (Envelope.read registry) := by
  have known : ∀ e ∈ registry.entries, e.2 ∈ packetTypes := by decide
  rw [Envelope.read_eq]
  refine ((Read.failsWith_word brief_short 8).map _).bind fun v => ?_
  simp only
  split
  · exact .done none
  · split
    · exact .fail (brief_unknownHash _)
    · next ht => exact (brief_of_body (known _ (Registry.mem_of_typeOf? ht)) _).map some

end

theorem sendable_reply {s t : Reader} {x : Except ProtocolError (Option Packet)}
    (h : Envelope.read registry s = (x, t)) : Sendable (reply x) := by
  match x with
  | .ok none => exact sendable_refusal (by decide)
  | .ok (some p) =>
    cases p with
    | calcSum c => exact .result _
    | calcMean c =>
      unfold reply
      dsimp only
      split
      · exact sendable_refusal (by decide)
      · exact .result _
    | _ => exact sendable_missing _
  | .error e =>
    -- that a read needs more is told in fixed words, however much it needs
    rcases brief_of_read h with he | he
    · cases e <;> first | exact sendable_refusal (by decide) | cases he
    · cases e <;> first | exact sendable_protocol he | exact sendable_refusal (by decide)

/-! ## Every connection is answered -/

theorem Sendable.wellFormed {q : Packet} (hq : Sendable q) : q.WellFormed registry := by
  cases hq <;> exact Packet.wellFormed_of_references rfl trivial rfl

/-- A sendable response goes out as one whole envelope and nothing else. -/
theorem Sendable.exists_written {q : Packet} (hq : Sendable q)
    (h : (((server o).service number).serve i).response = some q) :
    ∃ bs, serialize q = .ok bs ∧ (((server o).service number).serve i).written = bs ∧
      Envelope.read registry (.start bs) = (.ok (some q), ⟨bs.length, []⟩) := by
  have hl : ∀ n ∈ q.lengths, n ≤ maxLength := by
    cases hq with
    | result c => simp [Packet.lengths]
    | error hc => simpa [Packet.lengths] using hc
  obtain ⟨bs, hs⟩ := Envelope.exists_serialize hl
  have hy := Envelope.yields_serialize (.ofTypes packetTypes) hq.wellFormed hs
  refine ⟨bs, hs, ?_, ?_⟩
  · simp only [Served.written, h, Option.map_some, hs]
  · have hr := hy 0 []
    rwa [List.append_nil, Nat.zero_add] at hr

/-- Something sendable is due to whatever can come of waiting, if the connection stays alive. -/
theorem exists_due (hi : i.WellCut)
    (alive : ∀ cause, ((server o).service number).readRequest i ≠ .error (.io cause))
    (heard : ∀ limit, ((server o).service number).readRequest i ≠ .error (.timeout limit)) :
    ∃ q, (((server o).service number).serve i).response = some q ∧ Sendable q ∧ Due i.bytes q := by
  obtain ⟨w, hw, hr⟩ := ((server o).service number).exists_awaited hi
  cases hw with
  | settled hs =>
    exact ⟨_, response_of_settled hs hr, sendable_reply rfl, fun _ => rfl, fun _ => .inl ⟨hs, rfl⟩⟩
  | @oversized size h =>
    have hl := h.limit_lt
    have hu := h.size_le
    have hb : maxPacketSize + readSize < 10 ^ 10 := by decide
    have ht : (ProtocolError.packetTooLarge size maxPacketSize).message.length ≤ 100 :=
      (ProtocolError.brief_packetTooLarge (by omega) (by omega)).resolve_left nofun
    exact ⟨_, response_of_error hr, sendable_protocol ht, fun hn => absurd h.overruns hn,
      fun _ => .inr ⟨size, hl, hu, rfl⟩⟩
  | unfinished hs hl =>
    obtain ⟨needed, remaining, hd⟩ := hs
    have hq : reply (deserialize registry i.bytes) = refusal .connectionClosed := by
      change deserialize registry i.bytes = _ at hd
      rw [hd]
      rfl
    cases he : i.ending with
    | silent =>
      rw [he] at hr
      exact absurd hr (heard _)
    | failed cause =>
      rw [he] at hr
      exact absurd hr (alive cause)
    | closed =>
      rw [he] at hr
      have hs : Sendable (refusal .connectionClosed) := sendable_refusal (by decide)
      exact ⟨_, response_of_error hr, hs, fun _ => hq.symm,
        fun h => absurd h.limit_lt (Nat.not_lt.2 hl)⟩

/-- **The calculator answers every connection.** Whatever a client sends, and however it comes, as
long as the connection neither fails nor falls silent before a request has come: one whole envelope
is written and nothing else, of a result or of an error, and it is one that is due. -/
theorem answers_every_connection (o : ServerOptions) (number : Nat) {i : Input} (hi : i.WellCut)
    (alive : ∀ cause, ((server o).service number).readRequest i ≠ .error (.io cause))
    (heard : ∀ limit, ((server o).service number).readRequest i ≠ .error (.timeout limit)) :
    ∃ q bs, serialize q = .ok bs ∧ (((server o).service number).serve i).written = bs ∧
      Envelope.read registry (.start bs) = (.ok (some q), ⟨bs.length, []⟩) ∧
      ((∃ c, q = .rpcResult c) ∨ ∃ c, q = .rpcError c) ∧ Due i.bytes q := by
  obtain ⟨q, hq, hs, due⟩ := exists_due hi alive heard
  obtain ⟨bs, hb, hw, hr⟩ := hs.exists_written hq
  refine ⟨q, bs, hb, hw, hr, ?_, due⟩
  cases hs with
  | result c => exact .inl ⟨c, rfl⟩
  | error h => exact .inr ⟨_, rfl⟩

/-- A request for the sum of one value, cut within the hash and within the value, with a byte behind
it, and the reserved hash in one piece. -/
theorem answers_every_connection_cut :
    let sum : Input :=
      { pieces := [[0x0C, 0x9D, 0xFE], [0xA2, 0xF0, 0xEB, 0xD9, 0x18, 1, 0x3F], [0x80, 0, 0, 7]] }
    let null : Input := { pieces := [[0, 0, 0, 0, 0, 0, 0, 0]] }
    (∃ bs, serialize (.rpcResult (calculateSum ⟨[⟨0x3F800000⟩]⟩)) = .ok bs ∧
      (((server {}).service 0).serve sum).written = bs) ∧
    ∃ bs, serialize (.rpcError ⟨"request carried no packet"⟩) = .ok bs ∧
      (((server {}).service 1).serve null).written = bs := by
  intro sum null
  have hsum : deserialize registry sum.bytes = .ok (some (.calcSum ⟨[⟨0x3F800000⟩]⟩)) := by
    rw [deserialize, Envelope.read_eq, Registry.readHeaded_of_le (by decide)]
    rfl
  have hnull : deserialize registry null.bytes = .ok none := by
    rw [deserialize, Envelope.read_eq, Registry.readHeaded_of_le (by decide)]
    rfl
  have rsum : ((server {}).service 0).readRequest sum = .ok (.calcSum ⟨[⟨0x3F800000⟩]⟩) := rfl
  have rnull : ((server {}).service 1).readRequest null = .error .nullRequest := rfl
  have within : ∀ {bs : List UInt8}, bs.length ≤ maxPacketSize →
      ¬ Overruns registry maxPacketSize bs := fun hl h => Nat.not_lt.2 hl h.limit_lt
  obtain ⟨q, bs, hb, hw, -, -, due⟩ := answers_every_connection {} 0 (i := sum) (by decide)
    (fun _ h => by rw [rsum] at h; cases h) (fun _ h => by rw [rsum] at h; cases h)
  obtain ⟨q', bs', hb', hw', -, -, due'⟩ := answers_every_connection {} 1 (i := null) (by decide)
    (fun _ h => by rw [rnull] at h; cases h) (fun _ h => by rw [rnull] at h; cases h)
  rw [due.within (within (by decide)), hsum] at hb
  rw [due'.within (within (by decide)), hnull] at hb'
  exact ⟨⟨bs, hb, hw⟩, bs', hb', hw'⟩

end PacketRpc.Calculator
