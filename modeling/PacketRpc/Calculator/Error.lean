import PacketRpc.Client.Error

/-!
# Calculator errors

What can keep a user of the calculator from a value: the server reports an error, the exchange
fails, or the response is no answer to a calculation.
-/

namespace PacketRpc

/-- What can go wrong with a calculation. -/
inductive CalcError
  /-- The server reports an error. -/
  | reported (message : String)
  | client (error : ClientError)
  | protocol (error : ProtocolError)
  /-- The response is neither a value nor an error. -/
  | unexpectedResponse (packet : String)
  deriving DecidableEq, Repr

namespace CalcError

/-- The class of a calculator error. -/
def kind : CalcError → ErrorKind
  | reported _ => .handlerFailure
  | client e => e.kind
  | protocol e => e.kind
  | unexpectedResponse _ => .decodeInvalid

/-- The wording of a calculator error. -/
def message : CalcError → String
  | reported message => "server error: " ++ message
  | client e => e.message
  | protocol e => e.message
  | unexpectedResponse packet => "unexpected response packet " ++ packet

end CalcError
end PacketRpc
