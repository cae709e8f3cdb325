import PacketRpc.Proofs.Exchange.Loops
import PacketRpc.Proofs.Packet.RoundTrip
import PacketRpc.Service.Demonstration

/-!
# A call is a dispatch

Over a network on which nothing fails, a client gets what the dispatcher of the server makes of its
request, as if there were neither bytes nor connections between them: the response of the handler,
or else the packet that the error mapper puts in its place, and the closed connection where there is
neither (`Client.send_eq_answer`). How the network cuts the bytes on either way makes no difference.
-/

namespace PacketRpc

open Envelope (serialize)

/-- How a network on which nothing fails cuts what the two ends send. -/
structure Network where
  request : List UInt8 → List (List UInt8)
  response : List UInt8 → List (List UInt8)
  request_flatten : ∀ bs, (request bs).flatten = bs
  response_flatten : ∀ bs, (response bs).flatten = bs

/-- The way to a server and back. Both ends close their side once they have sent all. -/
def Network.route (n : Network) (s : Service) : Route :=
  .answered fun bs => { pieces := n.response (s.serve { pieces := n.request bs }).written }

/-- The packet with which a dispatcher answers a request, if it does. -/
def Dispatcher.answer? (d : Dispatcher) (p : Packet) : Option Packet :=
  match d.dispatch p with
  | .ok q => some q
  | .error e => d.mapError e

/-! ## The server -/

namespace Service

variable {s : Service} {i : Input} {p : Packet} {bs rest : List UInt8}

/-- A request that can be read is read, whatever follows. -/
theorem readRequest_of_serialize (hr : s.registry.Built) (hw : p.WellFormed s.registry)
    (hs : serialize p = .ok bs) (hm : bs.length ≤ maxPacketSize)
    (hi : i.pieces.flatten = bs ++ rest) : s.readRequest i = .ok p := by
  have hy := Envelope.yields_serialize hr hw hs
  rw [readRequest, readPieces_eq,
    Decoder.await_of_yields (d := { registry := s.registry }) hy (not_short_ok _) hm hi]
  rfl

theorem response_serve (h : s.readRequest i = .ok p) :
    (s.serve i).response = s.dispatcher.answer? p := by
  simp only [serve, h, Dispatcher.answer?]
  cases s.dispatcher.dispatch p <;> rfl

end Service

/-! ## The client -/

namespace Client

variable {c : Client} {i : Input} {q : Packet} {cs : List UInt8}

private theorem front?_start (r : Registry) : Decoder.front? { registry := r } = none := rfl

/-- A response that can be read is read. -/
theorem readResponse_of_serialize (hr : c.registry.Built) (hw : q.WellFormed c.registry)
    (hs : serialize q = .ok cs) (hm : cs.length ≤ maxPacketSize) (hi : i.pieces.flatten = cs) :
    c.readResponse i = .ok q := by
  have hy := Envelope.yields_serialize hr hw hs
  have he : [] ++ i.pieces.flatten = cs ++ [] := by simpa using hi
  rw [readResponse, readPieces_eq _ _ (front?_start _),
    Decoder.await_of_yields (d := { registry := c.registry }) hy (not_short_ok _) hm he]
  rfl

/-- Where nothing comes, the connection has been closed. -/
theorem readResponse_of_nil (hi : i.pieces.flatten = []) (he : i.ending = .closed) :
    c.readResponse i = .error .connectionClosed := by
  have hs : Short (Envelope.read c.registry (.start ([] ++ i.pieces.flatten))).1 :=
    Envelope.short_of_lt (by rw [hi]; decide)
  rw [readResponse, readPieces_eq _ _ (front?_start _),
    Decoder.await_of_short (d := { registry := c.registry }) hs (by simp [hi]), he]
  rfl

/-! ## The exchange -/

/-- A call takes the content of the response if it is of the type asked for. -/
theorem call_of_send {route : Route} {p : Packet} (h : c.send route p = .ok q) :
    c.call route q.type p = .ok q.content ∧
    ∀ t, t ≠ q.type → c.call route t p = .error (.unexpectedResponse t.name q.name) := by
  refine ⟨?_, fun t ht => ?_⟩
  · simp [call, h, Packet.contentAs?, bind, Except.bind]
    rfl
  · simp [call, h, Packet.contentAs?, Ne.symm ht, bind, Except.bind]

/-- **A call is a dispatch.** For a request that the server can read, the client gets the packet
with which the dispatcher answers, if the client can read it; a call gives its content when it is of
the type asked for, and says what it is otherwise. Where the dispatcher does not answer, the client
finds the connection closed. -/
theorem send_eq_answer (n : Network) (c : Client) (s : Service) (hc : c.registry.Built)
    (hs : s.registry.Built) {p : Packet} {bs : List UInt8} (hp : p.WellFormed s.registry)
    (hb : serialize p = .ok bs) (hl : bs.length ≤ maxPacketSize) :
    (∀ q cs, s.dispatcher.answer? p = some q → q.WellFormed c.registry → serialize q = .ok cs →
      cs.length ≤ maxPacketSize →
      c.send (n.route s) p = .ok q ∧ c.call (n.route s) q.type p = .ok q.content ∧
      ∀ t, t ≠ q.type → c.call (n.route s) t p = .error (.unexpectedResponse t.name q.name)) ∧
    (s.dispatcher.answer? p = none → c.send (n.route s) p = .error .connectionClosed) := by
  have hn : (n.request bs).flatten = bs ++ [] := by rw [n.request_flatten, List.append_nil]
  have hr := Service.response_serve
    (Service.readRequest_of_serialize (i := { pieces := n.request bs }) hs hp hb hl hn)
  constructor
  · intro q cs ha hq hcs hm
    have hw : (s.serve { pieces := n.request bs }).written = cs := by
      simp [Served.written, hr, ha, hcs]
    have hsend : c.send (n.route s) p = .ok q := by
      simp only [send, hb, Network.route, hw]
      exact readResponse_of_serialize hc hq hcs hm (n.response_flatten cs)
    exact ⟨hsend, call_of_send hsend⟩
  · intro ha
    have hw : (s.serve { pieces := n.request bs }).written = [] := by
      simp [Served.written, hr, ha]
    simp only [send, hb, Network.route, hw]
    exact readResponse_of_nil (n.response_flatten []) rfl

/-- A server that answers a text with a number, and does not answer a ping. Requests come byte by
byte, responses in one piece behind an empty one. -/
theorem send_eq_answer_constant :
    let n : Network :=
      ⟨fun bs => bs.map fun b => [b], fun bs => [[], bs], List.flatMap_singleton', by simp⟩
    let c : Client := { registry := .ofTypes [.rpcResult] }
    let s : Service :=
      { registry := .ofTypes [.echo, .ping], dispatcher := { handlers := [Demonstration.constant] },
        readTimeout := .ofMilliseconds 1000 }
    c.send (n.route s) (.echo ⟨"two"⟩) = .ok (.rpcResult ⟨⟨0x3FC00000⟩⟩) ∧
    c.call (n.route s) .rpcResult (.echo ⟨"two"⟩) = .ok ⟨⟨0x3FC00000⟩⟩ ∧
    c.call (n.route s) .echo (.echo ⟨"two"⟩) = .error (.unexpectedResponse "Echo" "RpcResult") ∧
    c.send (n.route s) (.ping ⟨⟩) = .error .connectionClosed := by
  intro n c s
  have he : serialize (.echo ⟨"two"⟩) =
      .ok [7, 180, 21, 134, 32, 62, 55, 251, 3, 116, 119, 111] := by
    rw [serialize, Envelope.write, Packet.writeReference, Packet.writeBody]
    rfl
  have hr : serialize (.rpcResult ⟨⟨0x3FC00000⟩⟩) =
      .ok [244, 35, 25, 204, 29, 32, 116, 15, 63, 192, 0, 0] := by
    rw [serialize, Envelope.write, Packet.writeReference, Packet.writeBody]
    rfl
  have hp : serialize (.ping ⟨⟩) = .ok [184, 88, 21, 208, 76, 236, 5, 60] := by
    rw [serialize, Envelope.write, Packet.writeReference, Packet.writeBody]
    rfl
  have echo := send_eq_answer (p := .echo ⟨"two"⟩) n c s (.ofTypes _) (.ofTypes _)
    (Packet.wellFormed_of_references (by decide) trivial rfl) he (by decide)
  have ping := send_eq_answer (p := .ping ⟨⟩) n c s (.ofTypes _) (.ofTypes _)
    (Packet.wellFormed_of_references (by decide) trivial rfl) hp (by decide)
  obtain ⟨hsend, hcall, hother⟩ := echo.1 _ _ rfl
    (Packet.wellFormed_of_references (by decide) trivial rfl) hr (by decide)
  exact ⟨hsend, hcall, hother .echo (by decide), ping.2 rfl⟩

end Client
end PacketRpc
