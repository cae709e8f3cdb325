import PacketRpc.Proofs.Server.History

/-!
# A shutdown strands no connection

Signals to leave come from callers who remove workers and, once no more connections are accepted,
from the shutdown. So all signals ahead of an accepted connection have come from callers
(`Server.Guarded`), and while these are fewer than the workers, some worker gets past them to the
connection (`Server.no_connection_stranded`). Signals that are lost do not matter here, for they can
only keep workers.
-/

namespace PacketRpc

variable {C : Type}

/-- At most `n` signals are ahead of any connection. -/
def SignalsAhead (jobs : List (Job C)) (n : Nat) : Prop :=
  ∀ front c back, jobs = front ++ .connection c :: back → front.countP Job.isExit ≤ n

namespace SignalsAhead

variable {jobs : List (Job C)} {n : Nat}

theorem mono {m : Nat} (h : SignalsAhead jobs n) (hn : n ≤ m) : SignalsAhead jobs m :=
  fun front c back he => Nat.le_trans (h front c back he) hn

theorem exit (h : SignalsAhead jobs n) : SignalsAhead (jobs ++ [.exit]) n := by
  intro front c back he
  -- the connection is not the last job, so it was there before
  rcases List.eq_nil_or_concat back with rfl | ⟨most, last, rfl⟩
  · have := (List.append_inj' he rfl).2
    simp at this
  · rw [List.concat_eq_append, ← List.cons_append, ← List.append_assoc] at he
    exact h front c most (List.append_inj' he rfl).1

theorem connection (h : jobs.countP Job.isExit ≤ n) (c : C) :
    SignalsAhead (jobs ++ [.connection c]) n := by
  intro front d back he
  have hp : front <+: jobs := by
    refine List.prefix_of_prefix_length_le ⟨_, he.symm⟩ (List.prefix_append _ _) ?_
    have := congrArg List.length he
    simp at this
    omega
  exact Nat.le_trans hp.sublist.countP_le h

end SignalsAhead

namespace Server

/-- A server where callers have sent `n` signals to leave: no more than these are ahead of a
connection, and no others have been sent as long as connections may come. -/
structure Guarded (s : Server) (h : History Connection) (n : Nat) : Prop where
  ahead : SignalsAhead h.enqueued n
  early : s.stage = .idle ∨ s.stage = .accepting → h.signals ≤ n

namespace Guarded

variable {s t : Server} {h : History Connection} {n : Nat}

theorem new (o : ServerOptions) (registry : Registry) (dispatchers : Nat → Dispatcher) :
    Guarded (.new o registry dispatchers) {} 0 where
  ahead front c back he := by simp at he
  early _ := Nat.zero_le _

/-- What puts no job into the queue keeps the guard. -/
theorem of_enqueued_eq {h' : History Connection} (hg : Guarded s h n)
    (he : h'.enqueued = h.enqueued)
    (hs : t.stage = .idle ∨ t.stage = .accepting → s.stage = .idle ∨ s.stage = .accepting) :
    Guarded t h' n where
  ahead := he ▸ hg.ahead
  early hc := by
    rw [History.signals, he]
    exact hg.early (hs hc)

theorem stage_start (s : Server) : s.start.stage = s.stage := by
  rw [start]
  split <;> rfl

theorem enqueued_bind (s : Server) (h : History Connection) :
    (s.record h .bind).enqueued = h.enqueued := by
  cases hs : s.started <;> simp [record, poolEvent?, hs, Pool.record]

theorem enqueued_serve (s : Server) (h : History Connection) :
    (s.record h .serve).enqueued = h.enqueued := by
  by_cases hs : s.stage = .idle ∧ ¬ s.shutDown ∧ ¬ s.started
  · simp only [record, poolEvent?, if_pos hs]
    rfl
  · simp only [record, poolEvent?, if_neg hs]

/-- **Every event keeps the guard.** -/
theorem step {e : Event} (hg : Guarded s h n) (hs : s.step? e = some t) :
    Guarded t (s.record h e) (n + [e].count (.pool .signal)) := by
  obtain ⟨ahead, early⟩ := id hg
  cases move_of_step? hs with
  | @pool e p inner hp =>
    cases e with
    | accept c => exact absurd rfl (inner.1 c)
    | drop c => exact absurd rfl (inner.2 c)
    | signal =>
      refine ⟨(ahead.mono (Nat.le_succ n)).exit, fun hc => ?_⟩
      have := early hc
      simpa [record, poolEvent?, Pool.record, History.signals] using this
    | _ => exact hg.of_enqueued_eq rfl id
  | @connect c p hc hp =>
    have hn := early (.inr hc)
    refine ⟨SignalsAhead.connection hn c, fun _ => ?_⟩
    simpa [record, poolEvent?, Pool.record, History.signals] using hn
  | turnAway c hc => exact hg.of_enqueued_eq rfl id
  | bind => exact hg.of_enqueued_eq (enqueued_bind s h) (by rw [stage_start]; exact id)
  | serve hi hd => exact hg.of_enqueued_eq (enqueued_serve s h) fun _ => .inl hi
  | stopAtOnce hs => exact hg.of_enqueued_eq (enqueued_serve s h) (by simp)
  | shutdown => exact hg.of_enqueued_eq rfl id
  | stop hc hd => exact hg.of_enqueued_eq rfl (by simp)
  | sendDue due hp => exact ⟨ahead.exit, by simp⟩
  | loseDue due => exact hg.of_enqueued_eq rfl (by simp)
  | finish due => exact hg.of_enqueued_eq rfl (by simp)

theorem run {es : List Event} (hg : Guarded s h n) (hr : s.run? es = some t) :
    Guarded t (s.pool.history h (s.poolEvents es)) (n + es.count (.pool .signal)) := by
  induction es generalizing s h n with
  | nil =>
    cases hr
    exact hg
  | cons e es ih =>
    obtain ⟨u, hs, hr⟩ := run?_cons.1 hr
    have hn : (e :: es).count (.pool .signal) =
        [e].count (.pool .signal) + es.count (.pool .signal) := by
      rw [← List.count_append]
      rfl
    rw [history_cons hs, hn, ← Nat.add_assoc]
    exact ih (hg.step hs) hr

/-- Where there are more workers than signals from callers, a connection still waits for a worker
that has not left. -/
theorem queued_eq_nil (hg : Guarded s h n) (hb : s.pool.Balanced h) (hn : n < h.added)
    (hz : s.pool.size = 0) : s.pool.queued = [] := by
  by_contra hq
  obtain ⟨c, hc⟩ := List.exists_mem_of_ne_nil _ hq
  obtain ⟨j, hj, hjc⟩ := List.mem_filterMap.1 hc
  obtain rfl : j = .connection c := by cases j <;> simp_all
  obtain ⟨front, back, hq⟩ := List.append_of_mem hj
  -- all workers have left, each with a signal from ahead of the connection
  have taken : h.left.length = h.dismissed.length := by
    have hw : s.pool.workers = [] := List.length_eq_zero_iff.1 hz
    simpa [Pool.leaving, hw] using hb.dismissed.length_eq.symm
  have ahead : h.dismissed.length ≤ n := by
    have := hg.ahead (h.taken.map Prod.snd ++ front) c back (by rw [hb.order, hq]; simp)
    rw [List.countP_append, Pool.countP_isExit_taken] at this
    exact Nat.le_trans (Nat.le_add_right _ _) this
  have := hb.added_eq
  omega

end Guarded

/-- **A shutdown strands no connection.** Connections may come, callers may add and remove workers
and the server may be shut down at any time, and signals may be lost. Once all workers have left, no
accepted connection is in the queue, and each was taken by a worker, provided that callers have sent
fewer signals to leave than there were workers. -/
theorem no_connection_stranded (o : ServerOptions) (registry : Registry)
    (dispatchers : Nat → Dispatcher) {es : List Event} {s : Server}
    (hr : (new o registry dispatchers).run? es = some s)
    (hn : es.count (.pool .signal) < ((new o registry dispatchers).history es).added)
    (hz : s.workerCount = 0) :
    s.pool.queued = [] ∧
      ((new o registry dispatchers).history es).accepted =
        ((new o registry dispatchers).history es).served.map Prod.snd := by
  have hg := (Guarded.new o registry dispatchers).run hr
  rw [Nat.zero_add] at hg
  have hb := (Pool.Balanced.empty o.queueCapacity.toNat).run (pool_of_run hr)
  have hq := hg.queued_eq_nil hb hn hz
  have ha := hb.accepted_eq
  rw [hq, List.append_nil] at ha
  exact ⟨hq, ha⟩

/-- Two workers, of which a caller removes one, and a queue so full that one of the two signals that
the shutdown owes is lost: both accepted connections are taken. -/
theorem no_connection_stranded_run :
    let o : ServerOptions := { workers := 2, queueCapacity := 2 }
    let a : Connection := ⟨0, { pieces := [] }⟩
    let b : Connection := ⟨1, { pieces := [[1]] }⟩
    let c : Connection := ⟨2, { pieces := [] }⟩
    let es : List Event := [.serve, .connect a, .pool (.take 0), .pool .signal, .connect b,
      .turnAway c, .shutdown, .stop, .loseDue, .pool (.take 1), .sendDue, .finish,
      .pool (.leave 1), .pool (.finish 0 true), .pool (.take 0), .pool (.finish 0 false),
      .pool (.take 0), .pool (.leave 0)]
    let h := (new o .empty fun _ => {}).history es
    (h.added = 2 ∧ es.count (.pool .signal) = 1 ∧ h.signals = 2) ∧
    ∃ s, (new o .empty fun _ => {}).run? es = some s ∧ s.workerCount = 0 ∧ s.pool.queued = [] ∧
      h.accepted = h.served.map Prod.snd ∧ h.served = [(0, a), (0, b)] := by
  intro o a b c es h
  have added : h.added = 2 := by decide +kernel
  have sent : es.count (.pool .signal) = 1 := by decide
  have hs : ((new o .empty fun _ => {}).run? es).map (·.workerCount) = some 0 := by decide +kernel
  obtain ⟨s, hr, hz⟩ := Option.map_eq_some_iff.1 hs
  have hn : es.count (.pool .signal) < h.added := by rw [added, sent]; decide
  obtain ⟨queued, accepted⟩ := no_connection_stranded o .empty (fun _ => {}) hr hn hz
  exact ⟨⟨added, sent, by decide +kernel⟩, s, hr, hz, queued, accepted, by decide +kernel⟩

end Server
end PacketRpc
