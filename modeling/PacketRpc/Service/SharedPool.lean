import PacketRpc.Service.Pool

/-!
# Shared pools

The workers of a pool stand on a roster that only one hand can hold at a time. A call that adds
workers holds it until the last of them is enrolled: each is started first, and may take jobs from
then on, and is put on the roster next. A worker on its way out takes its number off the roster, for
which it waits until nobody holds it. Calls that remove workers hold nothing. They send their
signals one by one, so any number of them may be under way, and each gives how many it could send.
-/

namespace PacketRpc

/-- A call that adds workers and holds the roster. -/
structure Adding where
  /-- How many workers are still to be started. -/
  due : Nat
  /-- The worker that has been started and is not enrolled yet. -/
  started : Option Nat := none
  deriving DecidableEq, Repr

/-- A call that removes workers. -/
structure Removing where
  /-- How many signals are still to be sent or lost. -/
  due : Nat
  sent : Nat := 0
  deriving DecidableEq, Repr

/-- A pool with its roster and the calls that are under way. -/
structure SharedPool (C : Type) where
  /-- The queue, and the workers that have been started and have not left. -/
  pool : Pool C
  /-- The numbers of the enrolled workers. -/
  roster : List Nat := []
  adding : Option Adding := none
  removing : List Removing := []
  /-- What the calls that removed workers have given. -/
  removed : List Nat := []

namespace SharedPool

variable {C : Type}

def empty (capacity : Nat) : SharedPool C := { pool := .empty capacity }

/-- How many workers are enrolled. -/
def size (s : SharedPool C) : Nat := s.roster.length

/-- What can happen to a shared pool. -/
inductive Event (C : Type)
  /-- A connection is accepted or dropped, or a worker takes a job or is done with one. -/
  | job (e : Pool.Event C)
  /-- A call to add `n` workers takes the roster. -/
  | beginAdding (n : Nat)
  /-- It starts a worker. -/
  | start
  /-- It puts the worker that it has started on the roster. -/
  | enrol
  /-- It gives the roster back. -/
  | endAdding
  /-- A call to remove `n` workers begins. -/
  | beginRemoving (n : Nat)
  /-- The call in this place sends a signal to leave. -/
  | send (call : Nat)
  /-- It gives up on a signal. -/
  | giveUp (call : Nat)
  /-- It ends, and gives how many signals it has sent. -/
  | endRemoving (call : Nat)
  /-- A worker that has taken a signal takes its number off the roster and is gone. -/
  | leave (worker : Nat)
  deriving DecidableEq, Repr

/-- The pool after an event; nothing if the event is not possible. -/
def step? (s : SharedPool C) : Event C → Option (SharedPool C)
  | .job (.add _) | .job .signal | .job .loseSignal | .job (.leave _) => none
  | .job e => (s.pool.step? e).map fun p => { s with pool := p }
  | .beginAdding n =>
    match s.adding with
    | none => some { s with adding := some ⟨n, none⟩ }
    | some _ => none
  | .start =>
    match s.adding with
    | some ⟨due + 1, none⟩ =>
      (s.pool.step? (.add 1)).map fun p =>
        { s with pool := p, adding := some ⟨due, some s.pool.nextNumber⟩ }
    | _ => none
  | .enrol =>
    match s.adding with
    | some ⟨due, some worker⟩ =>
      some { s with roster := s.roster ++ [worker], adding := some ⟨due, none⟩ }
    | _ => none
  | .endAdding =>
    match s.adding with
    | some ⟨0, none⟩ => some { s with adding := none }
    | _ => none
  | .beginRemoving n => some { s with removing := s.removing ++ [⟨n, 0⟩] }
  | .send call =>
    match s.removing[call]? with
    | some ⟨due + 1, sent⟩ =>
      (s.pool.step? .signal).map fun p =>
        { s with pool := p, removing := s.removing.set call ⟨due, sent + 1⟩ }
    | _ => none
  | .giveUp call =>
    match s.removing[call]? with
    | some ⟨due + 1, sent⟩ => some { s with removing := s.removing.set call ⟨due, sent⟩ }
    | _ => none
  | .endRemoving call =>
    match s.removing[call]? with
    | some ⟨0, sent⟩ =>
      some { s with removing := s.removing.eraseIdx call, removed := s.removed ++ [sent] }
    | _ => none
  | .leave worker =>
    match s.adding with
    | none =>
      (s.pool.step? (.leave worker)).map fun p =>
        { s with pool := p, roster := s.roster.erase worker }
    | some _ => none

/-- The pool after a run; nothing if one of the events is not possible. -/
def run? (s : SharedPool C) : List (Event C) → Option (SharedPool C)
  | [] => some s
  | e :: es => (s.step? e).bind (run? · es)

end SharedPool
end PacketRpc
