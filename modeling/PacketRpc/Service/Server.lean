import PacketRpc.Service.Connection
import PacketRpc.Service.Options
import PacketRpc.Service.Pool

/-!
# Servers

A server accepts connections and has a pool of workers serve them. Like its pool it moves by events.
Workers start when the server is first bound; a shutdown ends the accepting of connections, sends
every worker a signal to leave and is final. Handlers need not treat equal requests alike, so there
is a service for each connection, which carries one request.
-/

namespace PacketRpc

/-- What a server has counted. -/
structure Statistics where
  connections : Nat := 0
  dropped : Nat := 0
  requests : Nat := 0
  errors : Nat := 0
  deriving DecidableEq, Repr

namespace Statistics

/-- Counts a connection that has come. -/
def countConnection (t : Statistics) : Statistics := { t with connections := t.connections + 1 }

/-- Counts a connection that has come and is dropped. -/
def countDropped (t : Statistics) : Statistics :=
  { t with connections := t.connections + 1, dropped := t.dropped + 1 }

end Statistics

/-- A connection to a server. -/
structure Connection where
  number : Nat
  input : Input
  deriving DecidableEq, Repr

/-- How far the accepting of connections has come. -/
inductive Stage
  /-- No connections are accepted yet. -/
  | idle
  | accepting
  /-- No more connections are accepted; so many signals to leave are still due. `served` tells
  whether this ends an accepting of connections or takes the place of one. -/
  | stopping (signals : Nat) (served : Bool)
  | stopped (served : Bool)
  deriving DecidableEq, Repr

/-- A server. -/
structure Server where
  options : ServerOptions
  /-- What serves the connection of a number. -/
  service : Nat → Service
  pool : Pool Connection
  statistics : Statistics := {}
  /-- Whether the first workers have been started. -/
  started : Bool := false
  /-- Whether a shutdown has been asked for. -/
  shutDown : Bool := false
  stage : Stage := .idle

namespace Server

/-- A server that has not been bound yet. Its dispatchers go by the numbers of connections. -/
def new (o : ServerOptions) (registry : Registry) (dispatchers : Nat → Dispatcher) : Server where
  options := o
  service := fun number =>
    { registry, dispatcher := dispatchers number, readTimeout := o.readTimeout }
  pool := .empty o.queueCapacity.toNat

/-- True from the start of accepting until all signals due have been seen to. -/
def isRunning (s : Server) : Bool :=
  match s.stage with
  | .accepting | .stopping _ true => true
  | _ => false

/-- How many workers are enrolled. -/
def workerCount (s : Server) : Nat := s.pool.size

/-- Starts the first workers, once. -/
def start (s : Server) : Server :=
  if s.started then s
  else { s with started := true, pool := s.pool.enrol s.options.workers.toNat }

/-- Binds the server to its address, which starts its workers. -/
def bind (s : Server) : Server := s.start

/-- Asks for a shutdown. -/
def shutdown (s : Server) : Server := { s with shutDown := true }

/-- How a connection is served. -/
def serve (s : Server) (c : Connection) : Served := (s.service c.number).serve c.input

/-- Counts a connection that has been served. -/
def count (t : Statistics) (served : Served) : Statistics :=
  { t with
    requests := t.requests + if served.requested then 1 else 0
    errors := t.errors + if served.error.isSome then 1 else 0 }

/-- What can happen to a server. -/
inductive Event
  /-- Something happens to the pool, other than that a connection comes. -/
  | pool (e : Pool.Event Connection)
  /-- A connection comes and is queued. -/
  | connect (c : Connection)
  /-- A connection comes and is dropped. -/
  | turnAway (c : Connection)
  | bind
  /-- The server begins to accept connections, or to stop if it has been shut down before. Once it
  has stopped, it can only stop again. -/
  | serve
  | shutdown
  /-- The shutdown is noticed: no more connections are accepted, and each worker is due a signal. -/
  | stop
  /-- One of the signals due is sent. -/
  | sendDue
  /-- One of the signals due is lost. -/
  | loseDue
  /-- All signals due have been seen to. -/
  | finish
  deriving DecidableEq

/-- The statistics after an event of the pool: a connection counts once its worker is done. -/
def counted (s : Server) : Pool.Event Connection → Statistics
  | .finish worker _ =>
    match s.pool.activity? worker with
    | some (.serving c) => count s.statistics (s.serve c)
    | _ => s.statistics
  | _ => s.statistics

/-- The server after an event; nothing if the event is not possible. -/
def step? (s : Server) : Event → Option Server
  | .pool (.accept _) | .pool (.drop _) => none
  | .pool e => (s.pool.step? e).map fun p => { s with pool := p, statistics := s.counted e }
  | .connect c =>
    if s.stage = .accepting then
      (s.pool.step? (.accept c)).map fun p =>
        { s with pool := p, statistics := s.statistics.countConnection }
    else none
  | .turnAway _ =>
    if s.stage = .accepting then some { s with statistics := s.statistics.countDropped } else none
  | .bind => some s.bind
  | .serve =>
    match s.stage with
    | .idle =>
      if s.shutDown then some { s with stage := .stopping s.pool.size false }
      else some { s.start with stage := .accepting }
    | .stopped _ => some { s with stage := .stopping s.pool.size false }
    | _ => none
  | .shutdown => some s.shutdown
  | .stop =>
    if s.stage = .accepting ∧ s.shutDown then some { s with stage := .stopping s.pool.size true }
    else none
  | .sendDue =>
    match s.stage with
    | .stopping (n + 1) served =>
      (s.pool.step? .signal).map fun p => { s with stage := .stopping n served, pool := p }
    | _ => none
  | .loseDue =>
    match s.stage with
    | .stopping (n + 1) served => some { s with stage := .stopping n served }
    | _ => none
  | .finish =>
    match s.stage with
    | .stopping 0 served => some { s with stage := .stopped served }
    | _ => none

/-- The server after a run; nothing if one of the events is not possible. -/
def run? (s : Server) : List Event → Option Server
  | [] => some s
  | e :: es => (s.step? e).bind (run? · es)

/-! ## One thing at a time

Where nothing comes from outside before the workers are done with what there is, the order of events
is settled, and what a server does is a function.
-/

/-- The server after an event, or as it is if the event is not possible. -/
def after (s : Server) (e : Event) : Server := (s.step? e).getD s

/-- Lets idle workers see to at most `jobs` jobs. -/
def work (s : Server) : (jobs : Nat) → Server
  | 0 => s
  | jobs + 1 =>
    match s.pool.idleWorker?, s.pool.queue with
    | some w, .connection _ :: _ =>
      work ((s.after (.pool (.take w))).after (.pool (.finish w false))) jobs
    | some w, .exit :: _ => work ((s.after (.pool (.take w))).after (.pool (.leave w))) jobs
    | _, _ => s

/-- Lets the workers see to all jobs that they can. -/
def settle (s : Server) : Server := s.work s.pool.queue.length

/-- Enrols more workers. -/
def addWorkers (s : Server) (n : Nat) : Server := (s.after (.pool (.add n))).settle

/-- Sends signals to leave, of which some may be lost, and gives how many were sent. -/
def removeWorkers (s : Server) : Nat → Nat × Server
  | 0 => (0, s)
  | n + 1 =>
    match s.step? (.pool .signal) with
    | some t =>
      let (sent, u) := t.settle.removeWorkers n
      (sent + 1, u)
    | none => s.removeWorkers n

/-- Sends the signals due, or loses those for which there is no room, and ends the stopping. -/
def drain (s : Server) : (signals : Nat) → Server
  | 0 => s.after .finish
  | n + 1 => ((s.step? .sendDue).getD (s.after .loseDue)).settle.drain n

/-- Begins to accept connections, or stops at once after a shutdown. -/
def beginServing (s : Server) : Server :=
  let s := s.after .serve
  match s.stage with
  | .stopping n _ => s.drain n
  | _ => s

/-- Waits for the accepting to end: nothing if it never does. -/
def join? (s : Server) : Option (Except ServiceError Unit × Server) :=
  let s := s.after .stop
  let s := match s.stage with
    | .stopping n _ => s.drain n
    | _ => s
  match s.stage with
  | .stopped true => some (.ok (), s)
  | .stopped false => some (.error .shuttingDown, s)
  | _ => none

end Server
end PacketRpc
