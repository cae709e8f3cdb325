import PacketRpc.Service.Dispatcher
import PacketRpc.Stream.Decoder
import PacketRpc.Stream.Input

/-!
# Serving a connection

A connection carries one request and at most one response. The server reads until the request is
complete, hands it to the handler of its type and writes the response. An error on the way there is
offered to the error mapper, whose packet, if any, is written instead.
-/

namespace PacketRpc

/-- What a server answers with: what it knows of packets and requests, and how long it waits. -/
structure Service where
  registry : Registry
  dispatcher : Dispatcher
  readTimeout : Duration

namespace Service

/-- What a decoder makes of the bytes that have come: a request, an error, or nothing yet. -/
def poll (d : Decoder) : Option (Except ServiceError Packet) :=
  match d.decode.1 with
  | .ok (some p) => some (.ok p)
  | .ok none => none
  | .error .nullPacket => some (.error .nullRequest)
  | .error e => some (.error (.protocol e))

/-- What it means for a request that the input ends within it. -/
def cutShort (limit : Duration) : InputEnd → ServiceError
  | .closed => .connectionClosed
  | .silent => .timeout limit
  | .failed cause => .io cause

/-- Reads a request. Before each read the decoder is asked for one. -/
def readPieces (limit : Duration) (ending : InputEnd) (d : Decoder) :
    List (List UInt8) → Except ServiceError Packet
  | [] => (poll d).getD (.error (cutShort limit ending))
  | piece :: pieces => (poll d).getD (readPieces limit ending (d.extend piece) pieces)

/-- Reads the request that an input begins with. -/
def readRequest (s : Service) (i : Input) : Except ServiceError Packet :=
  readPieces s.readTimeout i.ending { registry := s.registry } i.pieces

end Service

/-- How a connection has been served. -/
structure Served where
  /-- Whether a request was read. -/
  requested : Bool
  /-- What went wrong, if anything. -/
  error : Option ServiceError
  /-- The response, from the handler or from the error mapper. -/
  response : Option Packet
  deriving Inhabited

namespace Served

/-- What is written to the client: the response, if there is one and it can be written. -/
def written (s : Served) : List UInt8 :=
  match s.response.map Envelope.serialize with
  | some (.ok bs) => bs
  | _ => []

end Served

namespace Service

/-- An error is offered to the mapper. -/
def fail (s : Service) (requested : Bool) (e : ServiceError) : Served :=
  ⟨requested, some e, s.dispatcher.mapError e⟩

/-- Serves a connection. -/
def serve (s : Service) (i : Input) : Served :=
  match s.readRequest i with
  | .error e => s.fail false e
  | .ok request =>
    match s.dispatcher.dispatch request with
    | .error e => s.fail true e
    | .ok response => ⟨true, none, some response⟩

end Service
end PacketRpc
