import PacketRpc.Proofs.Server.Tracked

/-!
# The counters of a server balance

The statistics of a server count a connection when its worker is done with it (`Server.Counted`). A
server that counts along the way has the same counted in the end, and at rest its counters balance
(`LiveServer.counters_balance`).
-/

namespace PacketRpc

/-! ## The statistics of the server itself -/

namespace Server

variable {s t : Server} {h : History Connection} {e : Event}

/-- The statistics are what the history says of connections that have come and are done with. -/
structure Counted (s : Server) (h : History Connection) : Prop where
  connections : s.statistics.connections = h.accepted.length + h.dropped.length
  dropped : s.statistics.dropped = h.dropped.length
  requests : s.statistics.requests = h.tally s.service Served.requested
  errors : s.statistics.errors = h.tally s.service (·.error.isSome)

/-- Where nothing changes about what has come and is done with, the statistics are kept. -/
theorem Counted.keep (hc : Counted s h) {h' : History Connection} (hv : t.service = s.service)
    (hs : t.statistics = s.statistics) (ha : h'.accepted = h.accepted)
    (hd : h'.dropped = h.dropped) (hf : h'.finished = h.finished) : Counted t h' where
  connections := by rw [hs, ha, hd, hc.connections]
  dropped := by rw [hs, hd, hc.dropped]
  requests := by rw [hs, hv, hc.requests, History.tally, History.tally, hf]
  errors := by rw [hs, hv, hc.errors, History.tally, History.tally, hf]

theorem Counted.come (hc : Counted s h) (he : e.comes = true) (hs : s.step? e = some t) :
    Counted t (s.record h e) := by
  obtain ⟨connections, dropped, requests, errors⟩ := hc
  cases move_of_step? hs with
  | @connect c p _ hp =>
    refine ⟨?_, dropped, requests, errors⟩
    show s.statistics.connections + 1 = (s.record h (.connect c)).accepted.length +
      h.dropped.length
    rw [connections, accepted_connect, List.length_append, List.length_singleton]
    omega
  | turnAway c _ =>
    refine ⟨?_, ?_, requests, errors⟩
    · show s.statistics.connections + 1 = h.accepted.length + (h.dropped ++ [c]).length
      rw [connections, List.length_append, List.length_singleton, Nat.add_assoc]
    · show s.statistics.dropped + 1 = (h.dropped ++ [c]).length
      rw [dropped, List.length_append, List.length_singleton]
  | _ => cases he

theorem Counted.finish (hc : Counted s h) (hb : s.pool.Balanced h) {k : Nat} {b : Bool}
    (hs : s.step? (.pool (.finish k b)) = some t) :
    Counted t (s.record h (.pool (.finish k b))) := by
  obtain ⟨c, bs, as, -, hserving, -, hfinished⟩ :=
    Pool.serving_of_finish (h := h) hb.nodup_numbers (step?_pool hs rfl)
  have hm : (k, c) ∈ s.pool.serving := hserving ▸ List.mem_append_right _ List.mem_cons_self
  have ha : s.pool.activity? k = some (.serving c) :=
    (Pool.activity?_eq_some hb.nodup_numbers).2 (Pool.mem_serving.1 hm)
  have tally (g : Served → Bool) : (s.record h (.pool (.finish k b))).tally s.service g =
      h.tally s.service g + (g (s.serve c)).toNat := by
    show List.countP _ (s.pool.record h (.finish k b)).finished = _
    rw [hfinished, List.countP_append, List.countP_singleton, History.tally]
    show _ + (if g (s.serve c) = true then 1 else 0) = _
    cases g (s.serve c) <;> rfl
  obtain ⟨connections, dropped, requests, errors⟩ := hc
  obtain ⟨p, -, rfl⟩ := Option.map_eq_some_iff.1 hs
  have hs : s.counted (.finish k b) = count s.statistics (s.serve c) := by
    rw [counted, ha]
  rw [hs]
  refine ⟨connections, dropped, ?_, ?_⟩
  · show s.statistics.requests + _ = _
    rw [tally, requests]
    cases (s.serve c).requested <;> rfl
  · show s.statistics.errors + _ = _
    rw [tally, errors]
    cases (s.serve c).error.isSome <;> rfl

/-- **Every event keeps the statistics right.** -/
theorem Counted.step (hc : Counted s h) (hb : s.pool.Balanced h) (hs : s.step? e = some t) :
    Counted t (s.record h e) := by
  obtain he | ⟨k, rfl⟩ | ⟨k, b, rfl⟩ | ⟨hn, hk, hf⟩ := e.cases_counting
  · exact hc.come he hs
  · exact hc.keep (service_of_step hs) (statistics_of_step hs rfl (by simp)) rfl rfl rfl
  · exact hc.finish hb hs
  · obtain ⟨ha, hd⟩ := accepted_record (h := h) hs hn
    exact hc.keep (service_of_step hs) (statistics_of_step hs hn hf) ha hd
      (serving_of_step hb hs hk hf).2

theorem Counted.run (hc : Counted s h) (hb : s.pool.Balanced h) {es : List Event}
    (hr : s.run? es = some t) : Counted t (s.pool.history h (s.poolEvents es)) := by
  induction es generalizing s h with
  | nil =>
    cases hr
    exact hc
  | cons e es ih =>
    rw [run?_cons] at hr
    obtain ⟨u, hs, hr⟩ := hr
    rw [history_cons hs]
    exact ih (hc.step hb hs) (balanced_step hb hs) hr

theorem Counted.new (o : ServerOptions) (registry : Registry) (dispatchers : Nat → Dispatcher) :
    Counted (.new o registry dispatchers) {} := ⟨rfl, rfl, rfl, rfl⟩

end Server

/-! ## The balance -/

theorem countP_add {α : Type} {f g k : α → Bool} (h : ∀ a, (f a).toNat = (g a).toNat + (k a).toNat)
    (l : List α) : l.countP f = l.countP g + l.countP k := by
  induction l with
  | nil => rfl
  | cons a l ih =>
    have ha := h a
    rw [List.countP_cons, List.countP_cons, List.countP_cons, ih]
    cases hf : f a <;> cases hg : g a <;> cases hk : k a <;> simp_all <;> omega

namespace History

variable (h : History Connection) (v : Nat → Service)

/-- A connection brings a request, or an error in its place. -/
theorem length_finished : h.finished.length = h.tally v Served.requested +
    h.tally v Served.requestFailed := by
  rw [← List.countP_true, tally, tally]
  refine countP_add (fun t => ?_) _
  rcases (v t.2.number).serve_counts t.2.input with ⟨hr, he⟩ | ⟨e, hr, he, hh⟩ | ⟨e, hr, he, hh⟩ <;>
    simp [Served.requestFailed, *]

theorem tally_error : h.tally v (·.error.isSome) = h.tally v Served.handlerFailed +
    h.tally v Served.requestFailed := by
  refine countP_add (fun t => ?_) _
  rcases (v t.2.number).serve_counts t.2.input with ⟨hr, he⟩ | ⟨e, hr, he, hh⟩ | ⟨e, hr, he, hh⟩ <;>
    simp [Served.requestFailed, Served.handlerFailed, *]

end History

namespace LiveServer

/-- **The counters of a server balance.** Connections may come, workers may be added and removed,
and any number of them may be at their connections, of which each takes its steps and counts in the
course of them; handlers and mappers may do something else each time, and serving may break off with
the mapper. At every moment the connections that have come are dropped, queued, being served or done
with. Each that is done with has added a request, an error or both, as it was served, and one being
served no more than it will have. So at rest the connections that were not dropped are the requests
and the errors before them, and the errors are those of handlers and those before them. The server
itself runs as if it counted each connection once it is done with. -/
theorem counters_balance (o : ServerOptions) (registry : Registry) (dispatchers : Nat → Dispatcher)
    {es : List Event} {s : LiveServer} (hr : (new o registry dispatchers).run? es = some s) :
    let v := (Server.new o registry dispatchers).service
    let h := (Server.new o registry dispatchers).history (serverEvents es)
    (s.counters.dropped = h.dropped.length ∧
      s.counters.connections = s.counters.dropped + s.server.pool.queued.length +
        s.server.pool.serving.length + h.finished.length) ∧
    (s.counters.requests = h.tally v Served.requested + s.tally Progress.requested ∧
      s.counters.errors = h.tally v (·.error.isSome) + s.tally Progress.failed) ∧
    (∀ k c, (k, c) ∈ s.server.pool.serving →
      ((s.progress k).requested = true → ((v c.number).serve c.input).requested = true) ∧
      ((s.progress k).failed = true → ((v c.number).serve c.input).error.isSome = true)) ∧
    (∀ number i, let w := (v number).serve i
      (w.requested = true ∧ w.error = none) ∨
      (∃ e, w.requested = true ∧ w.error = some e ∧ e.isHandlerError = true) ∨
      ∃ e, w.requested = false ∧ w.error = some e ∧ e.isHandlerError = false) ∧
    (s.server.pool.queued = [] → s.server.pool.serving = [] →
      s.counters.connections - s.counters.dropped =
        s.counters.requests + h.tally v Served.requestFailed ∧
      s.counters.errors = h.tally v Served.handlerFailed + h.tally v Served.requestFailed) ∧
    (Server.new o registry dispatchers).run? (serverEvents es) = some s.server ∧
      s.server.statistics =
        ⟨s.counters.connections, s.counters.dropped, h.tally v Served.requested,
          h.tally v (·.error.isSome)⟩ := by
  intro v h
  obtain ⟨hrun, ht⟩ := (Tracked.new o registry dispatchers).run hr
  replace ht : Tracked s v h := ht
  have hc : s.server.Counted h := (Server.Counted.new o registry dispatchers).run (.empty _) hrun
  have accepted : h.accepted.length =
      s.server.pool.queued.length + s.server.pool.serving.length + h.finished.length := by
    have ha := congrArg List.length ht.balanced.accepted_eq
    have hs := ht.balanced.served.length_eq
    rw [List.length_append, List.length_map] at ha
    rw [List.length_append] at hs
    omega
  have connections := ht.connections
  have dropped := ht.dropped
  refine ⟨⟨dropped, by omega⟩, ⟨ht.requests, ht.errors⟩, fun k c hm => (ht.progress k c hm).le,
    fun number => (v number).serve_counts, fun hq hs => ?_, hrun, ?_⟩
  · have none (f : Progress → Bool) : s.tally f = 0 := by rw [tally, hs, List.countP_nil]
    have requests := ht.requests
    have errors := ht.errors
    rw [none, Nat.add_zero] at requests errors
    simp only [hq, hs, List.length_nil] at accepted
    have := h.length_finished v
    exact ⟨by omega, errors.trans (h.tally_error v)⟩
  · have hv : s.server.service = v := ht.service
    rw [connections, dropped, ← hc.connections, ← hc.dropped, ← hv, ← hc.requests, ← hc.errors]

/-- Two workers and room for one connection. A request comes twice, the first time in two pieces,
and a connection behind it is dropped. Both workers count before either is done. The handler refuses
the request the second time, and the worker breaks off with the mapper. -/
theorem counters_balance_run :
    let o : ServerOptions := { workers := 2, queueCapacity := 1 }
    let once (number : Nat) : Handler :=
      ⟨.echo, fun c => if number = 0 then .response (.echo c) else .failure "once only"⟩
    let a : Connection :=
      ⟨0, { pieces := [[7, 180, 21, 134, 32, 62, 55, 251, 2], [104, 105]] }⟩
    let b : Connection :=
      ⟨1, { pieces := [[7, 180, 21, 134, 32, 62, 55, 251, 2, 104, 105]] }⟩
    let es : List Event := [.server .serve, .server (.connect a), .server (.pool (.take 1)),
      .server (.connect b), .server (.turnAway ⟨2, { pieces := [] }⟩), .server (.pool (.take 0)),
      .advance 1, .advance 0, .advance 1, .advance 0, .server (.pool (.finish 0 true)),
      .server (.pool (.finish 1 false))]
    let d (number : Nat) : Dispatcher := { handlers := [once number] }
    let v := (Server.new o (.ofTypes [.echo]) d).service
    let h := (Server.new o (.ofTypes [.echo]) d).history (serverEvents es)
    ∃ s, (new o (.ofTypes [.echo]) d).run? es = some s ∧ s.counters = ⟨3, 1, 2, 1⟩ ∧
      s.counters.connections - s.counters.dropped =
        s.counters.requests + h.tally v Served.requestFailed ∧
      s.counters.errors = h.tally v Served.handlerFailed + h.tally v Served.requestFailed := by
  intro o once a b es d v h
  have hs : ((new o (.ofTypes [.echo]) d).run? es).map (fun s =>
      (s.counters, s.server.pool.queued, s.server.pool.serving)) = some (⟨3, 1, 2, 1⟩, [], []) := by
    decide +kernel
  obtain ⟨s, hr, hcs⟩ := Option.map_eq_some_iff.1 hs
  simp only [Prod.mk.injEq] at hcs
  obtain ⟨hcounters, hqueued, hserving⟩ := hcs
  obtain ⟨-, -, -, -, rest, -⟩ := counters_balance o (.ofTypes [.echo]) d hr
  exact ⟨s, hr, hcounters, rest hqueued hserving⟩

end LiveServer
end PacketRpc
