import PacketRpc.Proofs.Server.Events
import PacketRpc.Proofs.Server.Serving

/-!
# What a server has counted along the way

While a server runs, its counters are what its history and the progress of its workers say
(`LiveServer.Tracked`): each connection that is done with has been counted as it was served, and of
one being served what has come up so far. Every event keeps this, those of the server
(`Tracked.server`) and the steps of its workers (`Tracked.advance`), whatever their order, and so
does a run (`Tracked.run`). Any run of a server is one in which it counts along the way
(`LiveServer.exists_run`).
-/

namespace PacketRpc

/-! ## The counters -/

/-- How many of the connections that are done with were served so that `f` holds. -/
def History.tally (h : History Connection) (v : Nat → Service) (f : Served → Bool) : Nat :=
  h.finished.countP fun t => f ((v t.2.number).serve t.2.input)

namespace LiveServer

variable {s s' : LiveServer} {v : Nat → Service} {h : History Connection}

/-- How many of the connections being served have come so far that `f` holds. -/
def tally (s : LiveServer) (f : Progress → Bool) : Nat :=
  s.server.pool.serving.countP fun t => f (s.progress t.1)

/-- The counters of a server are what its history and the progress of its workers say. -/
structure Tracked (s : LiveServer) (v : Nat → Service) (h : History Connection) : Prop where
  balanced : s.server.pool.Balanced h
  service : s.server.service = v
  connections : s.counters.connections = h.accepted.length + h.dropped.length
  dropped : s.counters.dropped = h.dropped.length
  progress : ∀ k c, (k, c) ∈ s.server.pool.serving → (s.progress k).Of (v c.number) c.input
  requests : s.counters.requests = h.tally v Served.requested + s.tally Progress.requested
  errors : s.counters.errors = h.tally v (·.error.isSome) + s.tally Progress.failed

section
variable (f : Progress → Bool) {k : Nat} {c : Connection} {bs as : List (Nat × Connection)}

theorem tally_of_serving (hs : s.server.pool.serving = bs ++ (k, c) :: as) :
    s.tally f = (bs ++ as).countP (fun t => f (s.progress t.1)) + (f (s.progress k)).toNat := by
  rw [tally, hs, List.countP_append, List.countP_cons, ← Nat.add_assoc, ← List.countP_append]
  cases f (s.progress k) <;> rfl

theorem countP_congr {p q : Nat → Progress} (hl : ∀ t ∈ bs ++ as, t.1 ≠ k)
    (hp : ∀ j, j ≠ k → p j = q j) :
    (bs ++ as).countP (fun t => f (p t.1)) = (bs ++ as).countP fun t => f (q t.1) :=
  List.countP_congr fun t ht => by rw [hp _ (hl t ht)]

end

theorem setProgress_of_ne {j k : Nat} (h : j ≠ k) (p : Progress) :
    s.setProgress k p j = s.progress j :=
  if_neg h

theorem setProgress_self (s : LiveServer) (k : Nat) (p : Progress) : s.setProgress k p k = p :=
  if_pos rfl

/-- A step with a connection leaves everything else alone. -/
theorem exists_of_advance {k : Nat} (hs : s.step? (.advance k) = some s') :
    ∃ c, s.server.pool.activity? k = some (.serving c) ∧ s'.server = s.server ∧
      (s'.progress k, s'.counters) =
        (s.server.service c.number).advance c.input s.counters (s.progress k) ∧
      ∀ j, j ≠ k → s'.progress j = s.progress j := by
  simp only [step?] at hs
  split at hs
  · next c ha =>
    cases hs
    refine ⟨c, ha, rfl, ?_, fun j hj => setProgress_of_ne hj _⟩
    dsimp only
    rw [setProgress_self]
  · cases hs

namespace Tracked

theorem new (o : ServerOptions) (registry : Registry) (dispatchers : Nat → Dispatcher) :
    Tracked (.new o registry dispatchers) (Server.new o registry dispatchers).service {} where
  balanced := .empty _
  service := rfl
  connections := rfl
  dropped := rfl
  progress _ _ h := nomatch h
  requests := rfl
  errors := rfl

/-- A worker goes on with its connection. -/
theorem advance (ht : Tracked s v h) {k : Nat} (hs : s.step? (.advance k) = some s') :
    Tracked s' v h := by
  obtain ⟨balanced, rfl, connections, dropped, progress, requests, errors⟩ := ht
  obtain ⟨c, ha, hserver, hnext, hothers⟩ := exists_of_advance hs
  obtain ⟨before, after, hw⟩ := Pool.exists_split ha
  obtain ⟨bs, as, hl, hserving⟩ := Pool.serving_split balanced.nodup_numbers hw
  have hsv : s.server.pool.serving = bs ++ (k, c) :: as := hserving _ _ hw
  have hof : (s.progress k).Of (s.server.service c.number) c.input :=
    progress k c (hsv ▸ List.mem_append_right _ List.mem_cons_self)
  obtain ⟨hof', hc, hd, hr, he⟩ := hof.advance s.counters
  rw [← hnext] at hof' hc hd hr he
  have tally (f : Progress → Bool) :
      s'.tally f + (f (s.progress k)).toNat = s.tally f + (f (s'.progress k)).toNat := by
    rw [tally_of_serving f hsv, tally_of_serving f (hserver ▸ hsv), countP_congr f hl hothers]
    omega
  have hreq := tally Progress.requested
  have herr := tally Progress.failed
  refine ⟨hserver ▸ balanced, by rw [hserver], hc.trans connections, hd.trans dropped, ?_, ?_, ?_⟩
  · intro j d hj
    rw [hserver] at hj
    by_cases hjk : j = k
    · -- the worker serves one connection
      subst hjk
      have hnot : ∀ d, (j, d) ∉ bs ++ as := fun d hm => hl _ hm rfl
      rw [hsv] at hj
      obtain rfl : d = c := by simp_all
      exact hof'
    · rw [hothers j hjk]
      exact progress j d hj
  · dsimp only at hr
    omega
  · dsimp only at he
    omega

/-- Where nothing changes about who is serving, requests and errors are kept. -/
theorem keep (ht : Tracked s v h) {h' : History Connection} (balanced : s'.server.pool.Balanced h')
    (service : s'.server.service = s.server.service)
    (connections : s'.counters.connections = h'.accepted.length + h'.dropped.length)
    (dropped : s'.counters.dropped = h'.dropped.length)
    (hs : s'.server.pool.serving = s.server.pool.serving) (hf : h'.finished = h.finished)
    (hp : s'.progress = s.progress) (hr : s'.counters.requests = s.counters.requests)
    (he : s'.counters.errors = s.counters.errors) : Tracked s' v h' where
  balanced := balanced
  service := service.trans ht.service
  connections := connections
  dropped := dropped
  progress k c hm := by
    rw [hp]
    exact ht.progress k c (hs ▸ hm)
  requests := by rw [hr, ht.requests, History.tally, History.tally, tally, tally, hs, hf, hp]
  errors := by rw [he, ht.errors, History.tally, History.tally, tally, tally, hs, hf, hp]

/-- A connection comes. -/
theorem come (ht : Tracked s v h) {e : Server.Event} (hc : e.comes = true)
    (hs : s.step? (.server e) = some s') : Tracked s' v (s.server.record h e) := by
  have connections := ht.connections
  have dropped := ht.dropped
  cases e with
  | connect c =>
    obtain ⟨t, ht', rfl⟩ := Option.map_eq_some_iff.1 hs
    obtain ⟨hserving, hfinished⟩ := Server.serving_of_step ht.balanced ht' (by simp) (by simp)
    have hb := Server.balanced_step ht.balanced ht'
    refine ht.keep hb (Server.service_of_step ht') ?_ dropped hserving hfinished rfl rfl rfl
    show s.counters.connections + 1 = (s.server.record h (.connect c)).accepted.length +
      h.dropped.length
    rw [connections, Server.accepted_connect, List.length_append, List.length_singleton]
    omega
  | turnAway c =>
    obtain ⟨t, ht', rfl⟩ := Option.map_eq_some_iff.1 hs
    obtain ⟨hserving, hfinished⟩ := Server.serving_of_step ht.balanced ht' (by simp) (by simp)
    have hb := Server.balanced_step ht.balanced ht'
    refine ht.keep hb (Server.service_of_step ht') ?_ ?_ hserving hfinished rfl rfl rfl
    · show s.counters.connections + 1 = h.accepted.length + (h.dropped ++ [c]).length
      rw [connections, List.length_append, List.length_singleton, Nat.add_assoc]
    · show s.counters.dropped + 1 = (h.dropped ++ [c]).length
      rw [dropped, List.length_append, List.length_singleton]
  | _ => cases hc

/-- A worker takes a job, and begins anew. -/
theorem take (ht : Tracked s v h) {k : Nat} (hs : s.step? (.server (.pool (.take k))) = some s') :
    Tracked s' v (s.server.record h (.pool (.take k))) := by
  obtain ⟨t, ht', rfl⟩ := Option.map_eq_some_iff.1 hs
  obtain ⟨bs, as, hl, hserving, hserving'⟩ :=
    Pool.serving_of_take ht.balanced.nodup_numbers (Server.step?_pool ht' rfl)
  have hb := Server.balanced_step ht.balanced ht'
  obtain ⟨ha, hd⟩ := Server.accepted_record (h := h) ht' rfl
  have hothers : ∀ j, j ≠ k → s.setProgress k .reading j = s.progress j :=
    fun j hj => setProgress_of_ne hj _
  have tally (f : Progress → Bool) (hf : f .reading = false) :
      LiveServer.tally ⟨t, s.counters, s.setProgress k .reading⟩ f = s.tally f := by
    have old : s.tally f = (bs ++ as).countP fun t => f (s.progress t.1) := by
      rw [LiveServer.tally, hserving]
    rw [old, ← countP_congr f hl hothers]
    rcases hserving' with hserving' | ⟨c, hserving'⟩
    · rw [LiveServer.tally, hserving']
    · rw [tally_of_serving f hserving']
      dsimp only
      rw [setProgress_self, hf]
      rfl
  refine ⟨hb, (Server.service_of_step ht').trans ht.service, ?_, ?_, ?_, ?_, ?_⟩
  · rw [ha, hd]
    exact ht.connections
  · rw [hd]
    exact ht.dropped
  · intro j c hj
    by_cases hjk : j = k
    · subst hjk
      show Progress.Of _ _ (s.setProgress j .reading j)
      rw [setProgress_self]
      trivial
    · show Progress.Of _ _ (s.setProgress k .reading j)
      rw [hothers j hjk]
      refine ht.progress j c ?_
      rw [hserving]
      rcases hserving' with hserving' | ⟨c', hserving'⟩ <;> rw [hserving'] at hj
      · exact hj
      · simpa [hjk] using hj
  · show s.counters.requests = _
    rw [ht.requests, ← tally Progress.requested rfl]
    rfl
  · show s.counters.errors = _
    rw [ht.errors, ← tally Progress.failed rfl]
    rfl

/-- Once a worker may be done with its connection, all that was to be counted of it has been. -/
theorem counted_of_allows {k : Nat} {b : Bool} {w : Service} {i : Input}
    (ha : s.allows (.pool (.finish k b)) = true) (hof : (s.progress k).Of w i) :
    (s.progress k).requested = (w.serve i).requested ∧
    (s.progress k).failed = (w.serve i).error.isSome := by
  unfold allows at ha
  rcases hp : s.progress k with _ | _ | ⟨requested, e⟩ | served
  · simp [hp] at ha
  · simp [hp] at ha
  · rw [hp] at hof
    have hs : w.serve i = w.fail requested e := hof
    rw [hs]
    exact ⟨rfl, rfl⟩
  · rw [hp] at hof
    have hs : w.serve i = served := hof
    rw [hs]
    exact ⟨rfl, rfl⟩

/-- A worker is done with its connection. -/
theorem finish (ht : Tracked s v h) {k : Nat} {b : Bool}
    (hs : s.step? (.server (.pool (.finish k b))) = some s') :
    Tracked s' v (s.server.record h (.pool (.finish k b))) := by
  simp only [step?] at hs
  split at hs
  · next hallow =>
    obtain ⟨t, ht', rfl⟩ := Option.map_eq_some_iff.1 hs
    obtain ⟨c, bs, as, hl, hserving, hserving', hfinished⟩ :=
      Pool.serving_of_finish (h := h) ht.balanced.nodup_numbers (Server.step?_pool ht' rfl)
    have hb := Server.balanced_step ht.balanced ht'
    obtain ⟨ha, hd⟩ := Server.accepted_record (h := h) ht' rfl
    have hof := ht.progress k c (hserving ▸ List.mem_append_right _ List.mem_cons_self)
    obtain ⟨hr, he⟩ := counted_of_allows hallow hof
    have tally (f : Progress → Bool) (g : Served → Bool)
        (hfg : f (s.progress k) = g ((v c.number).serve c.input)) :
        (s.server.record h (.pool (.finish k b))).tally v g +
          LiveServer.tally ⟨t, s.counters, s.progress⟩ f = h.tally v g + s.tally f := by
      rw [tally_of_serving f hserving, LiveServer.tally, hserving', hfg, History.tally,
        History.tally]
      show List.countP _ (s.server.pool.record h (.finish k b)).finished + _ = _
      rw [hfinished, List.countP_append, List.countP_singleton]
      cases g ((v c.number).serve c.input)
      · simp
      · simp only [if_true, Bool.toNat_true]
        omega
    refine ⟨hb, (Server.service_of_step ht').trans ht.service, ?_, ?_, ?_, ?_, ?_⟩
    · rw [ha, hd]
      exact ht.connections
    · rw [hd]
      exact ht.dropped
    · intro j d hj
      refine ht.progress j d ?_
      rw [hserving]
      rw [hserving'] at hj
      simp only [List.mem_append, List.mem_cons] at hj ⊢
      tauto
    · exact ht.requests.trans (tally Progress.requested Served.requested hr).symm
    · exact ht.errors.trans (tally Progress.failed (·.error.isSome) he).symm
  · cases hs

/-- Every event of the server itself keeps the track. -/
theorem server (ht : Tracked s v h) {e : Server.Event} (hs : s.step? (.server e) = some s') :
    s.server.step? e = some s'.server ∧ Tracked s' v (s.server.record h e) := by
  have hstep : s.server.step? e = some s'.server := by
    simp only [step?] at hs
    split at hs
    · obtain ⟨t, ht', rfl⟩ := Option.map_eq_some_iff.1 hs
      exact ht'
    · cases hs
  refine ⟨hstep, ?_⟩
  obtain hc | ⟨k, rfl⟩ | ⟨k, b, rfl⟩ | ⟨hc, hk, hf⟩ := e.cases_counting
  · exact ht.come hc hs
  · exact ht.take hs
  · exact ht.finish hs
  · simp only [step?] at hs
    split at hs
    · obtain ⟨t, ht', rfl⟩ := Option.map_eq_some_iff.1 hs
      obtain ⟨hserving, hfinished⟩ := Server.serving_of_step ht.balanced ht' hk hf
      obtain ⟨ha, hd⟩ := Server.accepted_record (h := h) ht' hc
      have hcounted : s.counted e = s.counters := by
        unfold counted
        split
        · cases hc
        · cases hc
        · rfl
      have hprogress : s.progressAfter e = s.progress := by
        unfold progressAfter
        split
        · exact absurd rfl (hk _)
        · rfl
      rw [hcounted, hprogress]
      refine ht.keep (Server.balanced_step ht.balanced ht') (Server.service_of_step ht') ?_ ?_
        hserving hfinished rfl rfl rfl
      · rw [ha, hd]
        exact ht.connections
      · rw [hd]
        exact ht.dropped
    · cases hs

end Tracked

/-- The events of the server itself. -/
def serverEvents (es : List Event) : List Server.Event :=
  es.filterMap fun
    | .server e => some e
    | .advance _ => none

theorem run?_cons {s u : LiveServer} {e : Event} {es : List Event} :
    s.run? (e :: es) = some u ↔ ∃ t, s.step? e = some t ∧ t.run? es = some u := by
  rw [run?, Option.bind_eq_some_iff]

/-- While it counts, a server runs as before, and its counters are on track. -/
theorem Tracked.run (ht : Tracked s v h) {es : List Event} (hr : s.run? es = some s') :
    s.server.run? (serverEvents es) = some s'.server ∧
    Tracked s' v (s.server.pool.history h (s.server.poolEvents (serverEvents es))) := by
  induction es generalizing s h with
  | nil =>
    cases hr
    exact ⟨rfl, ht⟩
  | cons e es ih =>
    rw [run?_cons] at hr
    obtain ⟨t, hs, hr⟩ := hr
    cases e with
    | server e =>
      obtain ⟨hstep, ht'⟩ := ht.server hs
      obtain ⟨hrun, hfinal⟩ := ih ht' hr
      refine ⟨Server.run?_cons.2 ⟨_, hstep, hrun⟩, ?_⟩
      show Tracked s' v (s.server.pool.history h (s.server.poolEvents (e :: serverEvents es)))
      rw [Server.history_cons hstep]
      exact hfinal
    | advance k =>
      obtain ⟨c, -, hserver, -⟩ := exists_of_advance hs
      rw [← hserver]
      exact ih (ht.advance hs) hr

end LiveServer

/-! ## No run is left out -/

namespace LiveServer

variable {s : LiveServer} {k : Nat} {c : Connection}

/-- A worker can take all steps with its connection while the others wait. -/
theorem exists_settled (ha : s.server.pool.activity? k = some (.serving c)) (n : Nat)
    (hn : (s.progress k).rank ≤ n) : ∃ s', s.run? (List.replicate n (.advance k)) = some s' ∧
      s'.server = s.server ∧ (s'.progress k).rank = 0 := by
  induction n generalizing s with
  | zero => exact ⟨s, rfl, rfl, Nat.le_zero.1 hn⟩
  | succ n ih =>
    obtain ⟨t, hs⟩ : ∃ t, s.step? (.advance k) = some t := by
      simp only [step?, ha]
      exact ⟨_, rfl⟩
    obtain ⟨c', ha', hserver, hnext, -⟩ := exists_of_advance hs
    have hp : (t.progress k).rank ≤ n := by
      have := Progress.rank_advance (s.server.service c'.number) c'.input s.counters (s.progress k)
      rw [← hnext] at this
      dsimp only at this
      omega
    obtain ⟨s', hr, hserver', hrank⟩ := ih (hserver ▸ ha) hp
    exact ⟨s', run?_cons.2 ⟨t, hs, hr⟩, hserver'.trans hserver, hrank⟩

theorem run?_append {u : LiveServer} {es fs : List Event} (hr : s.run? es = some u) :
    s.run? (es ++ fs) = u.run? fs := by
  induction es generalizing s with
  | nil =>
    cases hr
    rfl
  | cons e es ih =>
    rw [run?_cons] at hr
    obtain ⟨t, hs, hr⟩ := hr
    rw [List.cons_append, run?, hs, Option.bind_some, ih hr]

/-- A server can do what it could do before, once the worker in question has taken its steps. -/
theorem exists_allowed {e : Server.Event} {t : Server} (hs : s.server.step? e = some t) :
    ∃ n k s', s.run? (List.replicate n (.advance k)) = some s' ∧ s'.server = s.server ∧
      s'.allows e = true := by
  by_cases hf : ∃ k b, e = .pool (.finish k b)
  · obtain ⟨k, b, rfl⟩ := hf
    have hp : s.server.pool.step? (.finish k b) = some t.pool := Server.step?_pool hs rfl
    simp only [Pool.step?] at hp
    split at hp
    · next c ha =>
      obtain ⟨s', hr, hserver, hrank⟩ := exists_settled ha _ (Nat.le_refl _)
      refine ⟨_, k, s', hr, hserver, ?_⟩
      cases hq : s'.progress k <;> simp [hq, Progress.rank] at hrank
      simp [allows, hq]
    · cases hp
  · refine ⟨0, 0, s, rfl, rfl, ?_⟩
    unfold allows
    split
    · exact absurd ⟨_, _, rfl⟩ hf
    · rfl

theorem serverEvents_append (es fs : List Event) :
    serverEvents (es ++ fs) = serverEvents es ++ serverEvents fs :=
  List.filterMap_append

theorem serverEvents_replicate (n k : Nat) : serverEvents (List.replicate n (.advance k)) = [] := by
  induction n with
  | zero => rfl
  | succ n ih => exact ih

/-- **Every run of a server is the run of one that counts.** -/
theorem exists_run {es : List Server.Event} {t : Server} (hr : s.server.run? es = some t) :
    ∃ live s', serverEvents live = es ∧ s.run? live = some s' ∧ s'.server = t := by
  induction es generalizing s with
  | nil =>
    cases hr
    exact ⟨[], s, rfl, rfl, rfl⟩
  | cons e es ih =>
    rw [Server.run?_cons] at hr
    obtain ⟨u, hs, hr⟩ := hr
    obtain ⟨n, k, s', hsteps, hserver, hallow⟩ := exists_allowed hs
    have hstep : s'.step? (.server e) = some ⟨u, s'.counted e, s'.progressAfter e⟩ := by
      rw [step?, if_pos hallow, hserver, hs, Option.map_some]
    obtain ⟨live, s'', hlive, hrun, hfinal⟩ := ih (s := ⟨u, _, _⟩) hr
    refine ⟨List.replicate n (.advance k) ++ .server e :: live, s'', ?_, ?_, hfinal⟩
    · rw [serverEvents_append, serverEvents_replicate, List.nil_append, ← hlive]
      rfl
    · rw [run?_append hsteps]
      exact run?_cons.2 ⟨_, hstep, hrun⟩

end LiveServer

end PacketRpc
