import PacketRpc.Service.Server

/-!
# Servers while they count

The counters of a server are bumped along the way: a connection counts when it comes, a request when
it has been read, and an error when it comes up. In between, other workers are at it too. So serving
a connection takes steps here (`Progress`), and each step of a worker is an event of its own. Apart
from that a server moves as before.
-/

namespace PacketRpc

/-- How far the serving of a connection has come. -/
inductive Progress
  /-- The request is being read. -/
  | reading
  /-- The request has been read and counted. -/
  | dispatching (request : Packet)
  /-- An error has come up and been counted; the mapper is about to be asked. -/
  | failing (requested : Bool) (error : ServiceError)
  /-- It is settled what to answer. -/
  | answering (served : Served)

namespace Statistics

/-- Counts a request. -/
def countRequest (t : Statistics) : Statistics := { t with requests := t.requests + 1 }

/-- Counts an error. -/
def countError (t : Statistics) : Statistics := { t with errors := t.errors + 1 }

end Statistics

/-- The next step of serving a connection; what is answered is written when the worker is done. -/
def Service.advance (s : Service) (i : Input) (t : Statistics) : Progress → Progress × Statistics
  | .reading =>
    match s.readRequest i with
    | .ok request => (.dispatching request, t.countRequest)
    | .error e => (.failing false e, t.countError)
  | .dispatching request =>
    match s.dispatcher.dispatch request with
    | .ok response => (.answering ⟨true, none, some response⟩, t)
    | .error e => (.failing true e, t.countError)
  | .failing requested e => (.answering (s.fail requested e), t)
  | .answering served => (.answering served, t)

/-- A server, the counters as they stand, and how far each worker has come with its connection. -/
structure LiveServer where
  server : Server
  counters : Statistics := {}
  progress : Nat → Progress := fun _ => .reading

namespace LiveServer

/-- A server that has not been bound yet. -/
def new (o : ServerOptions) (registry : Registry) (dispatchers : Nat → Dispatcher) :
    LiveServer where
  server := .new o registry dispatchers

/-- What can happen to a server while it counts. -/
inductive Event
  | server (e : Server.Event)
  /-- A worker takes the next step with its connection. -/
  | advance (worker : Nat)
  deriving DecidableEq

/-- True unless a worker is to be done with a connection too early. It is done once it is settled
what to answer; or it breaks off because the mapper does. -/
def allows (s : LiveServer) : Server.Event → Bool
  | .pool (.finish worker broken) =>
    match s.progress worker with
    | .answering _ => true
    | .failing .. => broken
    | _ => false
  | _ => true

/-- The counters after an event of the server: it counts the connections that come, and among them
those that it drops. -/
def counted (s : LiveServer) : Server.Event → Statistics
  | .connect _ => s.counters.countConnection
  | .turnAway _ => s.counters.countDropped
  | _ => s.counters

/-- The progress of a worker is changed. -/
def setProgress (s : LiveServer) (worker : Nat) (p : Progress) : Nat → Progress :=
  fun k => if k = worker then p else s.progress k

/-- The progress after an event of the server: who takes a job begins anew. -/
def progressAfter (s : LiveServer) : Server.Event → Nat → Progress
  | .pool (.take worker) => s.setProgress worker .reading
  | _ => s.progress

/-- The server after an event; nothing if the event is not possible. -/
def step? (s : LiveServer) : Event → Option LiveServer
  | .server e =>
    if s.allows e then
      (s.server.step? e).map fun t => ⟨t, s.counted e, s.progressAfter e⟩
    else none
  | .advance worker =>
    match s.server.pool.activity? worker with
    | some (.serving c) =>
      let (p, t) := (s.server.service c.number).advance c.input s.counters (s.progress worker)
      some { s with counters := t, progress := s.setProgress worker p }
    | _ => none

/-- The server after a run; nothing if one of the events is not possible. -/
def run? (s : LiveServer) : List Event → Option LiveServer
  | [] => some s
  | e :: es => (s.step? e).bind (run? · es)

end LiveServer
end PacketRpc
