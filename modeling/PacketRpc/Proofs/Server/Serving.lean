import PacketRpc.Proofs.Exchange.Loops
import PacketRpc.Service.LiveServer

/-!
# Serving one connection

Serving a connection ends in one of three ways (`Service.Ends`): there is a response; or the request
has been read and the dispatcher fails, with an error of a handler; or the request cannot be read,
and then the error is none of a handler. Each step of it goes on from what the steps before have
come to, and counts what comes up in it once (`Progress.Of.advance`).
-/

namespace PacketRpc

/-! ## Errors before and after a request has been read -/

namespace Service

variable {s : Service} {i : Input} {e : ServiceError}

theorem isHandlerError_protocol (e : ProtocolError) :
    (ServiceError.protocol e).isHandlerError = false := by
  cases e <;> rfl

theorem isHandlerError_of_readRequest (h : s.readRequest i = .error e) :
    e.isHandlerError = false := by
  rw [readRequest, readPieces_eq] at h
  rcases hw : Decoder.await { registry := s.registry } i.pieces with _ | o
  · rw [hw, Option.map_none, Option.getD_none, Except.error.injEq] at h
    rw [← h]
    cases i.ending <;> rfl
  · rw [hw, Option.map_some, Option.getD_some] at h
    match o with
    | .ok (some p) => cases h
    | .ok none =>
      cases h
      rfl
    | .error e =>
      cases h
      exact isHandlerError_protocol e

theorem isHandlerError_of_dispatch {d : Dispatcher} {p : Packet} (h : d.dispatch p = .error e) :
    e.isHandlerError = true := by
  have of_result : ∀ {o : Handled}, o.result = .error e → e.isHandlerError = true := by
    rintro (_ | _ | _ | _) h <;> cases h <;> rfl
  rw [Dispatcher.dispatch] at h
  split at h
  · rw [Handler.run] at h
    split at h
    · exact of_result h
    · cases h
      rfl
  · cases h
    rfl

section
variable {p q : Packet}

theorem serve_of_unread (hr : s.readRequest i = .error e) : s.serve i = s.fail false e := by
  simp only [serve, hr]

theorem serve_of_refused (hr : s.readRequest i = .ok p) (hd : s.dispatcher.dispatch p = .error e) :
    s.serve i = s.fail true e := by
  simp only [serve, hr, hd]

theorem serve_of_answered (hr : s.readRequest i = .ok p) (hd : s.dispatcher.dispatch p = .ok q) :
    s.serve i = ⟨true, none, some q⟩ := by
  simp only [serve, hr, hd]

end

/-- The ways in which serving a connection can end. -/
inductive Ends (s : Service) (i : Input) : Served → Prop
  | answered {p q : Packet} (hr : s.readRequest i = .ok p) (hd : s.dispatcher.dispatch p = .ok q) :
    Ends s i ⟨true, none, some q⟩
  | refused {p : Packet} {e : ServiceError} (hr : s.readRequest i = .ok p)
    (hd : s.dispatcher.dispatch p = .error e) (he : e.isHandlerError = true) :
    Ends s i (s.fail true e)
  | unread {e : ServiceError} (hr : s.readRequest i = .error e) (he : e.isHandlerError = false) :
    Ends s i (s.fail false e)

theorem ends_serve (s : Service) (i : Input) : Ends s i (s.serve i) := by
  rcases hr : s.readRequest i with e | p
  · rw [serve_of_unread hr]
    exact .unread hr (isHandlerError_of_readRequest hr)
  · rcases hd : s.dispatcher.dispatch p with e | q
    · rw [serve_of_refused hr hd]
      exact .refused hr hd (isHandlerError_of_dispatch hd)
    · rw [serve_of_answered hr hd]
      exact .answered hr hd

/-- **What serving a connection adds to the counters**: a request, or a request and an error, or an
error; and the error is one of a handler just if there is a request. -/
theorem serve_counts (s : Service) (i : Input) :
    ((s.serve i).requested = true ∧ (s.serve i).error = none) ∨
    (∃ e, (s.serve i).requested = true ∧ (s.serve i).error = some e ∧ e.isHandlerError = true) ∨
    ∃ e, (s.serve i).requested = false ∧ (s.serve i).error = some e ∧ e.isHandlerError = false := by
  have he := ends_serve s i
  generalize s.serve i = w at he ⊢
  cases he with
  | answered => exact .inl ⟨rfl, rfl⟩
  | refused _ _ he => exact .inr (.inl ⟨_, rfl, rfl, he⟩)
  | unread _ he => exact .inr (.inr ⟨_, rfl, rfl, he⟩)

end Service

namespace Served

/-- True when serving ended with an error that arises only once a request has been read. -/
def handlerFailed (w : Served) : Bool := w.error.any (·.isHandlerError)

/-- True when serving ended with an error that arises before. -/
def requestFailed (w : Served) : Bool := w.error.any fun e => !e.isHandlerError

end Served

/-! ## One connection -/

namespace Progress

/-- Whether a request has been counted. -/
def requested : Progress → Bool
  | .reading => false
  | .dispatching _ => true
  | .failing requested _ => requested
  | .answering served => served.requested

/-- Whether an error has been counted. -/
def failed : Progress → Bool
  | .reading | .dispatching _ => false
  | .failing .. => true
  | .answering served => served.error.isSome

/-- What there is of the progress is how serving the connection goes. -/
def Of (s : Service) (i : Input) : Progress → Prop
  | .reading => True
  | .dispatching p => s.readRequest i = .ok p
  | .failing requested e => s.serve i = s.fail requested e
  | .answering served => s.serve i = served

variable {s : Service} {i : Input} {p : Progress}

/-- **Every step of serving a connection goes on as it should, and counts what comes up in it.** -/
theorem Of.advance (h : p.Of s i) (t : Statistics) :
    (s.advance i t p).1.Of s i ∧
    (s.advance i t p).2.connections = t.connections ∧ (s.advance i t p).2.dropped = t.dropped ∧
    (s.advance i t p).2.requests + p.requested.toNat =
      t.requests + (s.advance i t p).1.requested.toNat ∧
    (s.advance i t p).2.errors + p.failed.toNat =
      t.errors + (s.advance i t p).1.failed.toNat := by
  cases p with
  | reading =>
    rcases hr : s.readRequest i with e | q
    · have ha : s.advance i t .reading = (.failing false e, t.countError) := by
        simp only [Service.advance, hr]
      rw [ha]
      exact ⟨Service.serve_of_unread hr, rfl, rfl, rfl, rfl⟩
    · have ha : s.advance i t .reading = (.dispatching q, t.countRequest) := by
        simp only [Service.advance, hr]
      rw [ha]
      exact ⟨hr, rfl, rfl, rfl, rfl⟩
  | dispatching q =>
    have hr : s.readRequest i = .ok q := h
    rcases hd : s.dispatcher.dispatch q with e | r
    · have ha : s.advance i t (.dispatching q) = (.failing true e, t.countError) := by
        simp only [Service.advance, hd]
      rw [ha]
      exact ⟨Service.serve_of_refused hr hd, rfl, rfl, rfl, rfl⟩
    · have ha : s.advance i t (.dispatching q) = (.answering ⟨true, none, some r⟩, t) := by
        simp only [Service.advance, hd]
      rw [ha]
      exact ⟨Service.serve_of_answered hr hd, rfl, rfl, rfl, rfl⟩
  | failing requested e => exact ⟨h, rfl, rfl, rfl, rfl⟩
  | answering served => exact ⟨h, rfl, rfl, rfl, rfl⟩

/-- What has been counted of a connection is part of what serving it adds. -/
theorem Of.le (h : p.Of s i) :
    (p.requested = true → (s.serve i).requested = true) ∧
    (p.failed = true → (s.serve i).error.isSome = true) := by
  cases p with
  | reading => exact ⟨nofun, nofun⟩
  | dispatching q =>
    have hr : s.readRequest i = .ok q := h
    have he := s.ends_serve i
    generalize s.serve i = w at he ⊢
    cases he with
    | answered | refused => exact ⟨fun _ => rfl, nofun⟩
    | unread hr' _ =>
      rw [hr] at hr'
      cases hr'
  | failing requested e =>
    have hs : s.serve i = s.fail requested e := h
    rw [hs]
    exact ⟨id, fun _ => rfl⟩
  | answering served =>
    have hs : s.serve i = served := h
    rw [hs]
    exact ⟨id, id⟩

/-- How many steps there are at most until it is settled what to answer. -/
def rank : Progress → Nat
  | .reading => 3
  | .dispatching _ => 2
  | .failing .. => 1
  | .answering _ => 0

theorem rank_advance (s : Service) (i : Input) (t : Statistics) (p : Progress) :
    (s.advance i t p).1.rank ≤ p.rank - 1 := by
  unfold Service.advance
  repeat' split
  all_goals simp [rank]

end Progress
end PacketRpc
