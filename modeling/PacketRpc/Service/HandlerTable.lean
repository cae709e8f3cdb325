import Mathlib.Data.List.AList
import PacketRpc.Service.Error

/-!
# Dispatching requests of any kind

Which packet types there are is open, and so is what a handler does beside answering: handlers and
mappers run in any monad. A table keeps its handlers with their types forgotten; what it hands to
one is a packet of unknown type, and each finds out for itself whether the packet is one of its own.
-/

namespace PacketRpc

/-- Packet types, with what their packets hold and what they are called. -/
class PacketKind (T : Type) where
  Content : T → Type
  /-- The name of the type itself. -/
  typeName : T → String
  /-- The name that a packet carries. -/
  name : (t : T) → Content t → String

open PacketKind (Content typeName)

/-- A packet of some type or other. -/
structure AnyPacket (T : Type) [PacketKind T] where
  type : T
  content : Content type

/-- How a handler may end. -/
inductive Ending (T : Type) [PacketKind T]
  | response (packet : AnyPacket T)
  /-- The request is refused for a reason. -/
  | failure (reason : String)
  /-- The handler broke off; what it left behind may or may not be a text. -/
  | panic (left : Option String)

/-- A handler of the requests of one type. -/
structure TypedHandler (T : Type) [PacketKind T] (m : Type → Type) where
  type : T
  handle : Content type → m (Ending T)

/-- What a table keeps of a handler. -/
structure KeptHandler (T : Type) [PacketKind T] (m : Type → Type) where
  name : String
  run : AnyPacket T → m (Except ServiceError (AnyPacket T))

/-- At most one handler for each packet type, and an error mapper. -/
structure HandlerTable (T : Type) [PacketKind T] (m : Type → Type) where
  entries : AList fun _ : T => KeptHandler T m := ∅
  mapper : Option (ServiceError → m (Option (AnyPacket T))) := none

variable {T : Type} [PacketKind T] {m : Type → Type}

/-- The name of a packet. -/
def AnyPacket.name (p : AnyPacket T) : String := PacketKind.name p.type p.content

/-- The content of a packet, if that is of the given type. -/
def AnyPacket.contentAs? [DecidableEq T] (t : T) (p : AnyPacket T) : Option (Content t) :=
  if h : p.type = t then some (h ▸ p.content) else none

/-- The ending of a handler as a response or an error. -/
def Ending.result : Ending T → Except ServiceError (AnyPacket T)
  | response p => .ok p
  | failure reason => .error (.handlerFailed reason)
  | panic (some text) => .error (.handlerPanicked text)
  | panic none => .error (.handlerPanicked "unknown panic payload")

/-- A handler with its type forgotten. It refuses what is not of that type. -/
def TypedHandler.keep [DecidableEq T] [Monad m] (h : TypedHandler T m) : KeptHandler T m where
  name := typeName h.type
  run p := match p.contentAs? h.type with
    | some c => Ending.result <$> h.handle c
    | none => pure (.error (.handlerMissing (typeName h.type)))

namespace HandlerTable

variable [DecidableEq T] [Monad m]

/-- What is kept for packets of a type. -/
def entryAt? (d : HandlerTable T m) (t : T) : Option (KeptHandler T m) := d.entries.lookup t

/-- Installs a handler in place of any other for its type. -/
def onReceive (d : HandlerTable T m) (h : TypedHandler T m) : HandlerTable T m :=
  { d with entries := d.entries.insert h.type h.keep }

/-- Installs an error mapper in place of any other. -/
def onError (d : HandlerTable T m) (f : ServiceError → m (Option (AnyPacket T))) :
    HandlerTable T m :=
  { d with mapper := some f }

/-- Hands a request to what is kept for its type. -/
def dispatch (d : HandlerTable T m) (p : AnyPacket T) : m (Except ServiceError (AnyPacket T)) :=
  match d.entryAt? p.type with
  | some k => k.run p
  | none => pure (.error (.handlerMissing p.name))

/-- Offers an error to the mapper. -/
def mapError (d : HandlerTable T m) (e : ServiceError) : m (Option (AnyPacket T)) :=
  match d.mapper with
  | some f => f e
  | none => pure none

/-- True when something is kept for packets of the type. -/
def handles (d : HandlerTable T m) (t : T) : Bool := (d.entryAt? t).isSome

/-- The names of kept handlers in ascending order, from entries in whatever order they come. -/
def names (entries : List ((_ : T) × KeptHandler T m)) : List String :=
  (entries.map fun e => e.2.name).mergeSort fun a b => !decide (b < a)

/-- The names of the types that have handlers, in ascending order. -/
def handledTypes (d : HandlerTable T m) : List String := names d.entries.entries

end HandlerTable
end PacketRpc
