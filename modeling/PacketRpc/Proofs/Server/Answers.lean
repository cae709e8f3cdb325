import PacketRpc.Proofs.Exchange.Transparency
import PacketRpc.Proofs.Server.Serving
import PacketRpc.Proofs.Wire.Errors

/-!
# Which connections get an answer

An error in reading a request or in dispatching it is counted once and offered to the mapper, and
what the mapper makes of it is what the client gets (`Service.failures_answered`). A response that
cannot be written is no such error: it is not counted and the mapper is not asked, so that even a
mapper that answers every error can leave a client without an answer (`Service.not_all_answered`).
-/

namespace PacketRpc

open Envelope (serialize)

theorem Served.written_eq {w : Served} {q : Packet} {bs : List UInt8} (hr : w.response = some q)
    (hs : serialize q = .ok bs) : w.written = bs := by
  rw [written, hr, Option.map_some, hs]

namespace Service

variable {s : Service} {i : Input} {e : ServiceError}

/-- So many steps of serving a connection, from some progress and with the counters as they are. -/
def advances (s : Service) (i : Input) : Nat → Progress × Statistics → Progress × Statistics
  | 0, x => x
  | n + 1, x => advances s i n (s.advance i x.2 x.1)

theorem advances_answering (n : Nat) (w : Served) (t : Statistics) :
    s.advances i n (.answering w, t) = (.answering w, t) := by
  induction n with
  | zero => rfl
  | succ n ih => exact ih

/-- **Once it is settled what to answer, what was to be counted has been counted once.** -/
theorem advances_reading (s : Service) (i : Input) (n : Nat) (t : Statistics) :
    s.advances i (n + 3) (.reading, t) = (.answering (s.serve i), Server.count t (s.serve i)) := by
  rcases hr : s.readRequest i with e | p
  · simp only [advances, advance, hr, serve_of_unread hr]
    exact advances_answering _ _ _
  · rcases hd : s.dispatcher.dispatch p with e | q
    · simp only [advances, advance, hr, hd, serve_of_refused hr hd]
      exact advances_answering _ _ _
    · simp only [advances, advance, hr, hd, serve_of_answered hr hd]
      exact advances_answering _ _ _

/-- The error comes up in reading the request or in dispatching it. -/
def Fails (s : Service) (i : Input) (e : ServiceError) : Prop :=
  s.readRequest i = .error e ∨ ∃ p, s.readRequest i = .ok p ∧ s.dispatcher.dispatch p = .error e

/-- Either there is a response, or something fails. -/
theorem dispatched_or_fails (s : Service) (i : Input) :
    (∃ p q, s.readRequest i = .ok p ∧ s.dispatcher.dispatch p = .ok q) ∨ ∃ e, s.Fails i e := by
  rcases hr : s.readRequest i with e | p
  · exact .inr ⟨e, .inl hr⟩
  · rcases hd : s.dispatcher.dispatch p with e | q
    · exact .inr ⟨e, .inr ⟨p, hr, hd⟩⟩
    · exact .inl ⟨p, q, rfl, hd⟩

theorem Fails.serve_eq (h : s.Fails i e) : ∃ requested, s.serve i = s.fail requested e := by
  obtain hr | ⟨p, hr, hd⟩ := h
  · exact ⟨false, serve_of_unread hr⟩
  · exact ⟨true, serve_of_refused hr hd⟩

theorem Fails.error_serve (h : s.Fails i e) : (s.serve i).error = some e := by
  obtain ⟨requested, hs⟩ := h.serve_eq
  rw [hs, fail]

theorem Fails.response_serve (h : s.Fails i e) :
    (s.serve i).response = s.dispatcher.mapError e := by
  obtain ⟨requested, hs⟩ := h.serve_eq
  rw [hs, fail]

end Service

/-! ## A response that cannot be written -/

/-- Sends a text back as often as makes the response too long to be written, if the text is not
empty. -/
def Demonstration.overlong : Handler := ⟨.echo, fun c =>
  .response (.echo ⟨String.ofList (List.replicate (maxLength + 1) c.text.toList).flatten⟩)⟩

namespace Service

open Demonstration (echo overlong errorKind)

variable {s : Service} {i : Input}

theorem dispatch_overlong (m : Option ErrorMapper) :
    ({ handlers := [overlong], mapper := m } : Dispatcher).dispatch (.echo ⟨"a"⟩) =
      .ok (.echo ⟨String.ofList (List.replicate (maxLength + 1) 'a')⟩) := by
  show Except.ok (Packet.echo ⟨String.ofList (List.replicate (maxLength + 1) ['a']).flatten⟩) = _
  rw [List.flatten_replicate_singleton]

theorem serialize_overlong :
    serialize (.echo ⟨String.ofList (List.replicate (maxLength + 1) 'a')⟩) =
      .error (.lengthOverflow (maxLength + 1)) := by
  refine Envelope.serialize_eq_error ?_
  rw [Packet.lengths, Text.utf8ByteSize_replicate (by decide)]
  decide

/-- A mapper that answers every error with a packet that can be written. -/
theorem exists_serialize_errorKind (e : ServiceError) :
    ∃ q bs, errorKind e = some q ∧ serialize q = .ok bs := by
  obtain ⟨bs, hs⟩ := Envelope.exists_serialize (p := .echo ⟨e.kind.name⟩) (by
    intro n hn
    rw [Packet.lengths, List.mem_singleton] at hn
    rw [hn]
    cases e.kind <;> decide)
  exact ⟨_, bs, rfl, hs⟩

/-- Whoever knows the type of a request for an echo reads it. -/
theorem readRequest_echo {text : String} {bs : List UInt8} (hs : s.registry = .ofTypes [.echo])
    (hb : serialize (.echo ⟨text⟩) = .ok bs) (hl : bs.length ≤ maxPacketSize)
    (hi : i.pieces.flatten = bs) : s.readRequest i = .ok (.echo ⟨text⟩) := by
  have hw : (Packet.echo ⟨text⟩).WellFormed s.registry := by
    rw [hs]
    exact Packet.wellFormed_of_references rfl trivial rfl
  exact readRequest_of_serialize (hs ▸ .ofTypes _) hw hb hl (by rw [hi, List.append_nil])

theorem serialize_fail : serialize (.echo ⟨"fail"⟩) =
    .ok [7, 180, 21, 134, 32, 62, 55, 251, 4, 102, 97, 105, 108] := by
  rw [serialize, Envelope.write, Packet.writeReference, Packet.writeBody]
  rfl

theorem serialize_a : serialize (.echo ⟨"a"⟩) = .ok [7, 180, 21, 134, 32, 62, 55, 251, 1, 97] := by
  rw [serialize, Envelope.write, Packet.writeReference, Packet.writeBody]
  rfl

/-! ## The result -/

/-- **What fails is counted once and answered by the mapper.** An error in reading a request or in
dispatching it is offered to the mapper; if that gives a packet that can be written, this is what
the client gets. So with a mapper that always does, and a response that can be written if there is
one, no connection that is served is left without an answer. Where the response cannot be written,
though, the request is all that is counted, and nothing is written. -/
theorem failures_answered (s : Service) :
    (∀ i e, s.Fails i e →
      ((s.serve i).error = some e ∧ (s.serve i).response = s.dispatcher.mapError e) ∧
      (∀ t n, s.advances i (n + 3) (.reading, t) =
        (.answering (s.serve i), Server.count t (s.serve i)) ∧
        (Server.count t (s.serve i)).errors = t.errors + 1) ∧
      ∀ q bs, s.dispatcher.mapError e = some q → serialize q = .ok bs →
        (s.serve i).written = bs) ∧
    ((∀ e, ∃ q bs, s.dispatcher.mapError e = some q ∧ serialize q = .ok bs) →
      ∀ i, (∀ p q, s.readRequest i = .ok p → s.dispatcher.dispatch p = .ok q →
        ∃ bs, serialize q = .ok bs) →
      ∃ q bs, (s.serve i).response = some q ∧ serialize q = .ok bs ∧ (s.serve i).written = bs) ∧
    ∀ i p q e, s.readRequest i = .ok p → s.dispatcher.dispatch p = .ok q → serialize q = .error e →
      (s.serve i).error = none ∧ (s.serve i).written = [] ∧
        ∀ t n, s.advances i (n + 3) (.reading, t) = (.answering (s.serve i), t.countRequest) := by
  refine ⟨fun i e hf => ?failed, fun hm i hd => ?answered, fun i p q e hr hq he => ?unwritten⟩
  case failed =>
    refine ⟨⟨hf.error_serve, hf.response_serve⟩, fun t n => ⟨advances_reading s i n t, ?_⟩,
      fun q bs hq hb => Served.written_eq (hf.response_serve.trans hq) hb⟩
    rw [Server.count, hf.error_serve]
    rfl
  case answered =>
    obtain ⟨p, q, hr, hq⟩ | ⟨e, hf⟩ := s.dispatched_or_fails i
    · obtain ⟨bs, hb⟩ := hd p q hr hq
      have hresponse : (s.serve i).response = some q := by rw [serve_of_answered hr hq]
      exact ⟨q, bs, hresponse, hb, Served.written_eq hresponse hb⟩
    · obtain ⟨q, bs, hq, hb⟩ := hm e
      have hresponse := hf.response_serve.trans hq
      exact ⟨q, bs, hresponse, hb, Served.written_eq hresponse hb⟩
  case unwritten =>
    have hs := serve_of_answered hr hq
    refine ⟨by rw [hs], ?_, fun t n => ?_⟩
    · rw [hs, Served.written, Option.map_some, he]
    · rw [advances_reading, hs]
      rfl

/-- A handler that refuses, an input that ends at once, and a handler whose response cannot be
written. -/
theorem failures_answered_refused :
    let i : Input := { pieces := [[7, 180, 21, 134, 32, 62, 55, 251, 4], [102, 97, 105, 108]] }
    let j : Input := { pieces := [[7, 180, 21, 134, 32, 62, 55, 251, 1, 97]] }
    let s : Service :=
      { registry := .ofTypes [.echo], readTimeout := .ofMilliseconds 1000
        dispatcher := { handlers := [echo], mapper := some errorKind } }
    let v : Service := { s with dispatcher := { handlers := [overlong], mapper := some errorKind } }
    (s.Fails i (.handlerFailed "bad input") ∧
      (s.serve i).error = some (.handlerFailed "bad input") ∧
      (s.advances i 3 (.reading, {})).2 = { requests := 1, errors := 1 } ∧
      ∃ bs, serialize (.echo ⟨"HANDLER_FAILURE"⟩) = .ok bs ∧ (s.serve i).written = bs) ∧
    (∃ q bs, (s.serve { pieces := [] }).response = some q ∧ serialize q = .ok bs ∧
      (s.serve { pieces := [] }).written = bs) ∧
    (v.serve j).error = none ∧ (v.serve j).written = [] ∧
      (v.advances j 3 (.reading, {})).2 = { requests := 1 } := by
  intro i j s v
  have hread : s.readRequest i = .ok (.echo ⟨"fail"⟩) :=
    readRequest_echo rfl serialize_fail (by decide) rfl
  have hfails : s.Fails i (.handlerFailed "bad input") := .inr ⟨_, hread, rfl⟩
  have hempty : s.readRequest { pieces := [] } = .error .connectionClosed := rfl
  have hreadv : v.readRequest j = .ok (.echo ⟨"a"⟩) :=
    readRequest_echo rfl serialize_a (by decide) rfl
  obtain ⟨failed, answered, -⟩ := failures_answered s
  obtain ⟨-, -, unwritten⟩ := failures_answered v
  obtain ⟨⟨herror, -⟩, hcounted, hwritten⟩ := failed i _ hfails
  obtain ⟨hnone, hnothing, hrequest⟩ :=
    unwritten j _ _ _ hreadv (dispatch_overlong _) serialize_overlong
  refine ⟨⟨hfails, herror, ?_, ?_⟩, ?_, hnone, hnothing, ?_⟩
  · rw [(hcounted {} 0).1, serve, hread]
    rfl
  · obtain ⟨q, bs, hq, hbs⟩ := exists_serialize_errorKind (.handlerFailed "bad input")
    cases hq
    exact ⟨bs, hbs, hwritten _ bs rfl hbs⟩
  · refine answered exists_serialize_errorKind _ fun p q hp => ?_
    rw [hempty] at hp
    cases hp
  · rw [hrequest {} 0]
    rfl

/-- A mapper that answers every error is not asked when the response cannot be written: nothing is
written then, and no error is counted. -/
theorem not_all_answered :
    let i : Input := { pieces := [[7, 180, 21, 134, 32, 62, 55, 251, 1, 97]] }
    let s : Service :=
      { registry := .ofTypes [.echo], readTimeout := .ofMilliseconds 1000
        dispatcher := { handlers := [overlong], mapper := some errorKind } }
    (∀ e, ∃ q bs, s.dispatcher.mapError e = some q ∧ serialize q = .ok bs) ∧
    ∃ p q, s.readRequest i = .ok p ∧ s.dispatcher.dispatch p = .ok q ∧
      serialize q = .error (.lengthOverflow 2147483648) ∧ (s.serve i).error = none ∧
      Server.count {} (s.serve i) = { requests := 1 } ∧ (s.serve i).written = [] := by
  intro i s
  have hread : s.readRequest i = .ok (.echo ⟨"a"⟩) :=
    readRequest_echo rfl serialize_a (by decide) rfl
  have hs := serve_of_answered hread (dispatch_overlong _)
  refine ⟨exists_serialize_errorKind, _, _, hread, dispatch_overlong _, serialize_overlong, ?_, ?_,
    ?_⟩
  · rw [hs]
  · rw [hs]
    rfl
  · rw [hs, Served.written, Option.map_some, serialize_overlong]

end Service
end PacketRpc
