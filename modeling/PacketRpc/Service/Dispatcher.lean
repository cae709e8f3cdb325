import PacketRpc.Service.Error
import PacketRpc.Packet.Basic

/-!
# Dispatching requests

A dispatcher has at most one handler per packet type, the one installed last, and at most one error
mapper, again the last. A request goes to the handler of its very type; types that share a name or
a hash do not share handlers.
-/

namespace PacketRpc

/-- How a handler ends. -/
inductive Handled
  | response (packet : Packet)
  /-- The request is refused for a reason. -/
  | failure (reason : String)
  /-- The handler broke off; what it left behind may or may not be a text. -/
  | panic (left : Option String)

/-- A handler of requests of one type. -/
structure Handler where
  type : PacketType
  handle : type.Content → Handled

/-- Turns an error into a response, or into none. -/
abbrev ErrorMapper := ServiceError → Option Packet

/-- Handlers by packet type, and an error mapper. -/
structure Dispatcher where
  handlers : List Handler := []
  mapper : Option ErrorMapper := none

/-- The outcome of a handler as a response or an error. -/
def Handled.result : Handled → Except ServiceError Packet
  | response p => .ok p
  | failure reason => .error (.handlerFailed reason)
  | panic (some text) => .error (.handlerPanicked text)
  | panic none => .error (.handlerPanicked "unknown panic payload")

/-- Runs a handler on a request. A request of another type than the handler's is none of its. -/
def Handler.run (h : Handler) (p : Packet) : Except ServiceError Packet :=
  match p.contentAs? h.type with
  | some c => (h.handle c).result
  | none => .error (.handlerMissing h.type.name)

namespace Dispatcher

/-- The handler for requests of a type. -/
def handler? (d : Dispatcher) (t : PacketType) : Option Handler :=
  d.handlers.find? fun h => decide (h.type = t)

/-- Installs a handler in place of any other for its type. -/
def onReceive (d : Dispatcher) (h : Handler) : Dispatcher :=
  { d with handlers := h :: d.handlers.filter fun k => decide (k.type ≠ h.type) }

/-- Installs an error mapper in place of any other. -/
def onError (d : Dispatcher) (mapper : ErrorMapper) : Dispatcher := { d with mapper := some mapper }

/-- Hands a request to the handler of its type. -/
def dispatch (d : Dispatcher) (p : Packet) : Except ServiceError Packet :=
  match d.handler? p.type with
  | some h => h.run p
  | none => .error (.handlerMissing p.name)

/-- Offers an error to the mapper. -/
def mapError (d : Dispatcher) (e : ServiceError) : Option Packet := d.mapper.bind (· e)

/-- True when a handler takes requests of the type. -/
def handles (d : Dispatcher) (t : PacketType) : Bool := (d.handler? t).isSome

/-- The names of the types that have handlers, in ascending order. -/
def handledTypes (d : Dispatcher) : List String :=
  (d.handlers.map fun h => h.type.name).mergeSort fun a b => !decide (b < a)

end Dispatcher
end PacketRpc
