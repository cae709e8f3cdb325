import PacketRpc.Error
import PacketRpc.Duration

/-!
# Client errors

Everything that can keep a client from the response it has asked for. Errors of the network may be
gone at the next try; all others will come again.
-/

namespace PacketRpc

/-- What can go wrong while asking a server. -/
inductive ClientError
  /-- The socket failed. -/
  | io (cause : IoCause)
  | protocol (error : ProtocolError)
  /-- The host has no known address. -/
  | unresolved (host : String)
  /-- No connection came about in time. -/
  | connectTimeout (limit : Duration)
  /-- The response did not come in time. -/
  | timeout (limit : Duration)
  /-- The input ended within the response. -/
  | connectionClosed
  /-- The response is the reserved hash. -/
  | nullResponse
  /-- The response is of another type than asked for. -/
  | unexpectedResponse (expected actual : String)
  deriving DecidableEq, Repr

namespace ClientError

/-- The class of a client error. -/
def kind : ClientError → ErrorKind
  | protocol e => e.kind
  | connectTimeout _ | timeout _ => .timeout
  | nullResponse | unexpectedResponse .. => .decodeInvalid
  | io _ | unresolved _ | connectionClosed => .transport

/-- True of the errors that another try may avoid. -/
def isRetryable : ClientError → Bool
  | io _ | connectTimeout _ | timeout _ | connectionClosed => true
  | _ => false

/-- The wording of a client error. -/
def message : ClientError → String
  | io cause => "I/O error: " ++ cause.text
  | protocol e => "protocol error: " ++ e.message
  | unresolved host => "could not resolve " ++ host
  | connectTimeout limit => "connect timed out after " ++ limit.text
  | timeout limit => "no response within " ++ limit.text
  | connectionClosed => "connection closed before a response arrived"
  | nullResponse => "server answered with a null packet"
  | unexpectedResponse expected actual =>
    "unexpected response: expected " ++ expected ++ ", got " ++ actual

end ClientError
end PacketRpc
