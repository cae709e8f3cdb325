/-!
# Worker pools

A pool has a queue of limited length and workers that take jobs from its front. A job is a
connection to serve or a signal to leave. The pool moves by events, each of which is possible only
in some states; any number of workers and callers may be at it, so that any order of possible events
is a run. Nothing is put into a queue without room, but room is no promise: it may be kept for a
signal that has waited for it, and until that is put there, a connection is turned away and a signal
that comes later may be lost.
-/

namespace PacketRpc

/-- Something that waits for a worker. -/
inductive Job (C : Type)
  | connection (c : C)
  /-- The worker that takes this leaves. -/
  | exit
  deriving DecidableEq, Repr

/-- What a worker is doing. -/
inductive Activity (C : Type)
  | idle
  | serving (c : C)
  /-- It has taken a signal and is on its way out. -/
  | leaving
  deriving DecidableEq, Repr

/-- A worker, known by its number. -/
structure Worker (C : Type) where
  number : Nat
  activity : Activity C
  deriving DecidableEq, Repr

/-- A queue of jobs, and the workers enrolled to take them. -/
structure Pool (C : Type) where
  capacity : Nat
  queue : List (Job C) := []
  workers : List (Worker C) := []
  nextNumber : Nat := 0

namespace Pool

variable {C : Type}

/-- A pool without workers. Its queue has room for at least one job. -/
def empty (capacity : Nat) : Pool C := { capacity := max capacity 1 }

/-- How many workers are enrolled. -/
def size (p : Pool C) : Nat := p.workers.length

/-- True when the queue has room for another job. -/
def hasRoom (p : Pool C) : Bool := p.queue.length < p.capacity

/-- Puts a job at the end of the queue. -/
def enqueue (p : Pool C) (j : Job C) : Pool C := { p with queue := p.queue ++ [j] }

/-- Enrols `n` new workers. -/
def enrol (p : Pool C) (n : Nat) : Pool C :=
  { p with
    workers := p.workers ++ (List.range' p.nextNumber n).map (⟨·, .idle⟩)
    nextNumber := p.nextNumber + n }

/-- What the worker of a number is doing, if it is enrolled. -/
def activity? (p : Pool C) (number : Nat) : Option (Activity C) :=
  (p.workers.find? (·.number == number)).map Worker.activity

/-- Puts the worker of a number to something else. -/
def setActivity (p : Pool C) (number : Nat) (a : Activity C) : Pool C :=
  { p with
    workers := p.workers.map fun w => if w.number == number then { w with activity := a } else w }

/-- What can happen to a pool. -/
inductive Event (C : Type)
  /-- A connection is put into the queue. -/
  | accept (c : C)
  /-- A connection is turned away. -/
  | drop (c : C)
  /-- New workers are enrolled. -/
  | add (n : Nat)
  /-- A signal to leave is put into the queue. -/
  | signal
  /-- A signal to leave is lost. -/
  | loseSignal
  /-- An idle worker takes the job at the front of the queue. -/
  | take (worker : Nat)
  /-- A worker is done with its connection, whether or not serving it broke off. -/
  | finish (worker : Nat) (broken : Bool)
  /-- A worker that has taken a signal is enrolled no more. -/
  | leave (worker : Nat)
  deriving DecidableEq, Repr

/-- The pool after an event; nothing if the event is not possible. -/
def step? (p : Pool C) : Event C → Option (Pool C)
  | .accept c => if p.hasRoom then some (p.enqueue (.connection c)) else none
  | .drop _ => some p
  | .add n => some (p.enrol n)
  | .signal => if p.hasRoom then some (p.enqueue .exit) else none
  | .loseSignal => some p
  | .take worker =>
    match p.activity? worker, p.queue with
    | some .idle, .connection c :: jobs =>
      some (({ p with queue := jobs }).setActivity worker (.serving c))
    | some .idle, .exit :: jobs => some (({ p with queue := jobs }).setActivity worker .leaving)
    | _, _ => none
  | .finish worker _ =>
    match p.activity? worker with
    | some (.serving _) => some (p.setActivity worker .idle)
    | _ => none
  | .leave worker =>
    match p.activity? worker with
    | some .leaving => some { p with workers := p.workers.filter (·.number != worker) }
    | _ => none

/-- The pool after a run; nothing if one of the events is not possible. -/
def run? (p : Pool C) : List (Event C) → Option (Pool C)
  | [] => some p
  | e :: es => (p.step? e).bind (run? · es)

/-- The number of the first idle worker. -/
def idleWorker? (p : Pool C) : Option Nat :=
  (p.workers.find? fun w => match w.activity with
    | .idle => true
    | _ => false).map Worker.number

end Pool
end PacketRpc
