import PacketRpc.Client.Error
import PacketRpc.Client.Options
import PacketRpc.Stream.Decoder
import PacketRpc.Stream.Input

/-!
# Asking a server

A client connects anew for each request, sends it, closes its side and reads one response. What the
network does is a parameter, so that what a client gives is a function of the bytes that come back.
-/

namespace PacketRpc

/-- What comes of connecting to a server and sending a request. -/
inductive Route
  /-- The host has no known address. -/
  | unresolved
  /-- No connection came about in time. -/
  | late
  /-- No connection came about, or it broke while the request was sent. -/
  | broken (cause : IoCause)
  /-- The other end did not take the request in time. -/
  | notTaken
  /-- The other end has the request and answers. -/
  | answered (answer : List UInt8 → Input)

/-- A client: which packets it knows, and how it connects. -/
structure Client where
  options : ClientOptions := {}
  registry : Registry

namespace Client

/-- What a decoder makes of the bytes that have come: a response, an error, or nothing yet. -/
def poll (d : Decoder) : Option (Except ClientError Packet) :=
  match d.decode.1 with
  | .ok (some p) => some (.ok p)
  | .ok none => none
  | .error .nullPacket => some (.error .nullResponse)
  | .error e => some (.error (.protocol e))

/-- What it means for a response that the input ends within it. -/
def cutShort (limit : Duration) : InputEnd → ClientError
  | .closed => .connectionClosed
  | .silent => .timeout limit
  | .failed cause => .io cause

/-- Reads a response. After each read the decoder is asked for one. -/
def readPieces (limit : Duration) (ending : InputEnd) (d : Decoder) :
    List (List UInt8) → Except ClientError Packet
  | [] => .error (cutShort limit ending)
  | piece :: pieces =>
    (poll (d.extend piece)).getD (readPieces limit ending (d.extend piece) pieces)

/-- Reads the response that an input begins with. -/
def readResponse (c : Client) (i : Input) : Except ClientError Packet :=
  readPieces c.options.readTimeout i.ending { registry := c.registry } i.pieces

/-- Asks for the response to a request. -/
def send (c : Client) (route : Route) (request : Packet) : Except ClientError Packet :=
  match Envelope.serialize request with
  | .error e => .error (.protocol e)
  | .ok bs =>
    match route with
    | .unresolved => .error (.unresolved c.options.host)
    | .late => .error (.connectTimeout c.options.connectTimeout)
    | .broken cause => .error (.io cause)
    | .notTaken => .error (.timeout c.options.readTimeout)
    | .answered answer => c.readResponse (answer bs)

/-- Asks for a response of a type. -/
def call (c : Client) (route : Route) (t : PacketType) (request : Packet) :
    Except ClientError t.Content := do
  let response ← c.send route request
  match response.contentAs? t with
  | some content => return content
  | none => .error (.unexpectedResponse t.name response.name)

/-- The bytes that the other end gets of a request, if they reach it. -/
def sent? (route : Route) (request : Packet) : Option (List UInt8) :=
  match route, Envelope.serialize request with
  | .answered _, .ok bs => some bs
  | _, _ => none

end Client
end PacketRpc
