import PacketRpc.Proofs.Pool.History
import PacketRpc.Service.Server

/-!
# What a run of a server is to its pool

Every event of a server is at most one event of its pool (`Server.poolEvent?`), so a server runs as
its pool does (`Server.pool_of_run`), and the balance of a pool and its history holds of servers.
-/

namespace PacketRpc.Server

/-- What an event of a server is to its pool. -/
def poolEvent? (s : Server) : Event → Option (Pool.Event Connection)
  | .pool e => some e
  | .connect c => some (.accept c)
  | .turnAway c => some (.drop c)
  | .bind => if s.started then none else some (.add s.options.workers.toNat)
  | .serve =>
    if s.stage = .idle ∧ ¬ s.shutDown ∧ ¬ s.started then some (.add s.options.workers.toNat)
    else none
  | .sendDue => some .signal
  | .loseDue => some .loseSignal
  | .shutdown | .stop | .finish => none

/-- The events of the pool in the course of a run. -/
def poolEvents (s : Server) : List Event → List (Pool.Event Connection)
  | [] => []
  | e :: es =>
    match s.step? e with
    | some t => (s.poolEvent? e).toList ++ t.poolEvents es
    | none => []

/-- What has happened to the pool in the course of a run. -/
def history (s : Server) (es : List Event) : History Connection :=
  s.pool.history {} (s.poolEvents es)

theorem run?_cons {s u : Server} {e : Event} {es : List Event} :
    s.run? (e :: es) = some u ↔ ∃ t, s.step? e = some t ∧ t.run? es = some u := by
  rw [run?, Option.bind_eq_some_iff]

/-- The history after one more event. -/
def record (s : Server) (h : History Connection) (e : Event) : History Connection :=
  match s.poolEvent? e with
  | some pe => s.pool.record h pe
  | none => h

section
variable {s t : Server} {e : Event}

/-! ## One step -/

/-- What an event does to a server. -/
inductive Move (s : Server) : Event → Server → Prop
  | pool {e p} (inner : (∀ c, e ≠ .accept c) ∧ ∀ c, e ≠ .drop c) (hs : s.pool.step? e = some p) :
    Move s (.pool e) { s with pool := p, statistics := s.counted e }
  | connect {c p} (running : s.stage = .accepting) (hs : s.pool.step? (.accept c) = some p) :
    Move s (.connect c) { s with pool := p, statistics := s.statistics.countConnection }
  | turnAway (c : Connection) (running : s.stage = .accepting) :
    Move s (.turnAway c) { s with statistics := s.statistics.countDropped }
  | bind : Move s .bind s.start
  | serve (first : s.stage = .idle) (hd : s.shutDown = false) :
    Move s .serve { s.start with stage := .accepting }
  | stopAtOnce (hs : (s.stage = .idle ∧ s.shutDown = true) ∨ ∃ served, s.stage = .stopped served) :
    Move s .serve { s with stage := .stopping s.pool.size false }
  | shutdown : Move s .shutdown s.shutdown
  | stop (running : s.stage = .accepting) (hd : s.shutDown = true) :
    Move s .stop { s with stage := .stopping s.pool.size true }
  | sendDue {n served p} (due : s.stage = .stopping (n + 1) served)
    (hs : s.pool.step? .signal = some p) :
    Move s .sendDue { s with stage := .stopping n served, pool := p }
  | loseDue {n served} (due : s.stage = .stopping (n + 1) served) :
    Move s .loseDue { s with stage := .stopping n served }
  | finish {served} (due : s.stage = .stopping 0 served) :
    Move s .finish { s with stage := .stopped served }

theorem move_of_step? (hs : s.step? e = some t) : s.Move e t := by
  cases e with
  | pool e =>
    cases e with
    | accept | drop => cases hs
    | _ =>
      simp only [step?, Option.map_eq_some_iff] at hs
      obtain ⟨p, hp, rfl⟩ := hs
      exact .pool (by simp) hp
  | connect c =>
    simp only [step?] at hs
    split at hs
    · next hc =>
      obtain ⟨p, hp, rfl⟩ := Option.map_eq_some_iff.1 hs
      exact .connect hc hp
    · cases hs
  | turnAway c =>
    obtain ⟨hc, rfl⟩ : s.stage = .accepting ∧ _ := by simpa [step?] using hs
    exact .turnAway c hc
  | bind =>
    cases hs
    exact .bind
  | serve =>
    simp only [step?] at hs
    split at hs
    · next hi =>
      split at hs
      · next hd =>
        cases hs
        exact .stopAtOnce (.inl ⟨hi, hd⟩)
      · next hd =>
        cases hs
        exact .serve hi (Bool.eq_false_iff.2 hd)
    · next served hc =>
      cases hs
      exact .stopAtOnce (.inr ⟨served, hc⟩)
    · cases hs
  | shutdown =>
    cases hs
    exact .shutdown
  | stop =>
    obtain ⟨⟨hc, hd⟩, rfl⟩ : (s.stage = .accepting ∧ s.shutDown = true) ∧ _ := by
      simpa [step?] using hs
    exact .stop hc hd
  | sendDue =>
    simp only [step?] at hs
    split at hs
    · next n served hd =>
      obtain ⟨p, hp, rfl⟩ := Option.map_eq_some_iff.1 hs
      exact .sendDue hd hp
    · cases hs
  | loseDue =>
    simp only [step?] at hs
    split at hs
    · next n served hd =>
      cases hs
      exact .loseDue hd
    · cases hs
  | finish =>
    simp only [step?] at hs
    split at hs
    · next served hd =>
      cases hs
      exact .finish hd
    · cases hs

theorem pool_start (s : Server) :
    s.start.pool = if s.started then s.pool else s.pool.enrol s.options.workers.toNat := by
  rw [start]
  split <;> rfl

/-- What is no event of the pool leaves the pool alone. -/
theorem Move.pool_eq (hm : s.Move e t) :
    match s.poolEvent? e with
    | some pe => s.pool.step? pe = some t.pool
    | none => t.pool = s.pool := by
  cases hm with
  | pool _ hs | connect _ hs | sendDue _ hs => exact hs
  | bind => cases hs : s.started <;> simp [poolEvent?, hs, pool_start, Pool.step?]
  | serve hi hd => cases hs : s.started <;> simp [poolEvent?, hi, hd, hs, pool_start, Pool.step?]
  | stopAtOnce hs =>
    have hn : s.poolEvent? .serve = none := by
      rcases hs with ⟨-, hd⟩ | ⟨served, hc⟩
      · simp [poolEvent?, hd]
      · simp [poolEvent?, hc]
    rw [hn]
  | turnAway | loseDue | shutdown | stop | finish => rfl

theorem step?_pool {pe : Pool.Event Connection} (hs : s.step? e = some t)
    (he : s.poolEvent? e = some pe) : s.pool.step? pe = some t.pool := by
  have := (move_of_step? hs).pool_eq
  rwa [he] at this

theorem pool_eq_of_step? (hs : s.step? e = some t) (he : s.poolEvent? e = none) :
    t.pool = s.pool := by
  have := (move_of_step? hs).pool_eq
  rwa [he] at this

/-! ## Runs -/

/-- A server runs as its pool does. -/
theorem pool_of_run {es : List Event} (hr : s.run? es = some t) :
    s.pool.run? (s.poolEvents es) = some t.pool := by
  induction es generalizing s with
  | nil =>
    cases hr
    rfl
  | cons e es ih =>
    obtain ⟨u, hs, hr⟩ := run?_cons.1 hr
    rw [poolEvents, hs]
    rcases he : s.poolEvent? e with _ | pe
    · rw [← pool_eq_of_step? hs he]
      exact ih hr
    · exact Pool.run?_cons.2 ⟨_, step?_pool hs he, ih hr⟩

theorem history_cons (hs : s.step? e = some t) (h : History Connection) (es : List Event) :
    s.pool.history h (s.poolEvents (e :: es)) =
      t.pool.history (s.record h e) (t.poolEvents es) := by
  rw [poolEvents, hs, record]
  rcases he : s.poolEvent? e with _ | pe
  · rw [← pool_eq_of_step? hs he]
    rfl
  · exact Pool.history_cons (step?_pool hs he) h _

end
end PacketRpc.Server
