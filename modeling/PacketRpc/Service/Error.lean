import PacketRpc.Error
import PacketRpc.Duration
import PacketRpc.Settings.Error

/-!
# Service errors

Everything that can go wrong while a server deals with a connection. Two classes of error arise only
after the request has been read: no handler takes it, or its handler fails.
-/

namespace PacketRpc

/-- What can go wrong while serving. -/
inductive ServiceError
  /-- The socket failed. -/
  | io (cause : IoCause)
  | protocol (error : ProtocolError)
  | config (error : ConfigError)
  /-- The request is the reserved hash. -/
  | nullRequest
  /-- The input ended within the request. -/
  | connectionClosed
  /-- The request did not come in time. -/
  | timeout (limit : Duration)
  /-- No handler takes packets of this type. -/
  | handlerMissing (packet : String)
  /-- The handler refused the request. -/
  | handlerFailed (reason : String)
  /-- The handler broke off. -/
  | handlerPanicked (reason : String)
  | shuttingDown
  deriving DecidableEq, Repr

namespace ServiceError

/-- The class of a service error. -/
def kind : ServiceError → ErrorKind
  | io _ | connectionClosed | shuttingDown => .transport
  | protocol e => e.kind
  | config _ => .config
  | nullRequest => .decodeInvalid
  | timeout _ => .timeout
  | handlerMissing _ => .handlerMissing
  | handlerFailed _ | handlerPanicked _ => .handlerFailure

/-- True of the classes that arise only once the request has been read. -/
def isHandlerError (e : ServiceError) : Bool :=
  e.kind == .handlerMissing || e.kind == .handlerFailure

/-- The wording of a service error. -/
def message : ServiceError → String
  | io cause => "I/O error: " ++ cause.text
  | protocol e => "protocol error: " ++ e.message
  | config e => "configuration error: " ++ e.message
  | nullRequest => "request carried no packet"
  | connectionClosed => "connection closed before a full request arrived"
  | timeout limit => "timed out after " ++ limit.text ++ " waiting for request"
  | handlerMissing packet => "no handler registered for " ++ packet
  | handlerFailed reason => reason
  | handlerPanicked reason => "handler panicked: " ++ reason
  | shuttingDown => "server shutting down"

end ServiceError
end PacketRpc
