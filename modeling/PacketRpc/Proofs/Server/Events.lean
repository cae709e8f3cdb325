import PacketRpc.Proofs.Server.History

/-!
# What an event of a server is to its connections

Connections come and are dropped when there is an event for it, and nothing else touches their
numbers (`Server.accepted_record`). They go to workers when these take them and leave them when they
are done with (`Pool.serving_of_take`, `Pool.serving_of_finish`), and no other event makes a
difference to who is serving (`Server.serving_of_step`). So an event is one of these three, or
neither the connections nor the statistics change (`Server.statistics_of_step`).
-/

namespace PacketRpc

namespace Pool

variable {C : Type} {p q : Pool C} {h : History C} {e : Event C}

/-- Connections go to workers and leave them only when they are taken and done with. -/
theorem serving_of_step (hd : p.numbers.Nodup) (hs : p.step? e = some q) (ht : ∀ k, e ≠ .take k)
    (hf : ∀ k b, e ≠ .finish k b) :
    q.serving = p.serving ∧ (p.record h e).finished = h.finished := by
  cases move_of_step? hd hs with
  | accept | drop | signal | loseSignal => exact ⟨rfl, rfl⟩
  | add n => exact ⟨by simp [serving, enrol, List.filterMap_append], rfl⟩
  | takeConnection | takeExit => exact absurd rfl (ht _)
  | finish => exact absurd rfl (hf _ _)
  | leave who =>
    rw [serving_of_split who]
    exact ⟨by simp [serving, List.filterMap_append], rfl⟩

/-- The others that serve connections do not have the number of a given worker. -/
theorem serving_split {k : Nat} {a : Activity C} {before after : List (Worker C)}
    (hd : p.numbers.Nodup) (hw : p.workers = before ++ ⟨k, a⟩ :: after) :
    ∃ bs as, (∀ t ∈ bs ++ as, t.1 ≠ k) ∧ ∀ (r : Pool C) (b : Activity C),
      r.workers = before ++ ⟨k, b⟩ :: after →
      r.serving = bs ++ ((⟨k, b⟩ : Worker C).serves?.toList ++ as) := by
  refine ⟨_, _, fun t ht => ?_, fun r b hr => serving_of_split hr⟩
  obtain ⟨hb, ha⟩ := ne_of_split hd hw
  have number : ∀ {w : Worker C}, w.serves? = some t → t.1 = w.number := by
    rintro ⟨k, _ | c | _⟩ h <;> cases h
    rfl
  rcases List.mem_append.1 ht with ht | ht <;> obtain ⟨w, hm, hs⟩ := List.mem_filterMap.1 ht
  · exact number hs ▸ hb w hm
  · exact number hs ▸ ha w hm

/-- A worker that takes a job was not serving a connection, and serves at most the one that it has
taken. -/
theorem serving_of_take {k : Nat} (hd : p.numbers.Nodup) (hs : p.step? (.take k) = some q) :
    ∃ bs as, (∀ t ∈ bs ++ as, t.1 ≠ k) ∧ p.serving = bs ++ as ∧
      (q.serving = bs ++ as ∨ ∃ c, q.serving = bs ++ (k, c) :: as) := by
  cases move_of_step? hd hs with
  | @takeConnection _ c _ _ _ _ who =>
    obtain ⟨bs, as, hl, hserving⟩ := serving_split hd who
    exact ⟨bs, as, hl, hserving _ _ who, .inr ⟨c, hserving _ (.serving c) rfl⟩⟩
  | takeExit _ who =>
    obtain ⟨bs, as, hl, hserving⟩ := serving_split hd who
    exact ⟨bs, as, hl, hserving _ _ who, .inl (hserving _ .leaving rfl)⟩

/-- A worker is done with the connection that it was serving. -/
theorem serving_of_finish {k : Nat} {b : Bool} (hd : p.numbers.Nodup)
    (hs : p.step? (.finish k b) = some q) :
    ∃ c bs as, (∀ t ∈ bs ++ as, t.1 ≠ k) ∧ p.serving = bs ++ (k, c) :: as ∧ q.serving = bs ++ as ∧
      (p.record h (.finish k b)).finished = h.finished ++ [(k, c)] := by
  cases move_of_step? hd hs with
  | @finish _ c _ before after who =>
    obtain ⟨bs, as, hl, hserving⟩ := serving_split hd who
    refine ⟨c, bs, as, hl, hserving _ _ who, hserving _ .idle rfl, ?_⟩
    simp [record, served?, activity?_of_split hd who]

end Pool

namespace Server

variable {s t : Server} {h : History Connection} {e : Event}

/-- The balance of a pool holds of servers. -/
theorem balanced_step (hb : s.pool.Balanced h) (hs : s.step? e = some t) :
    t.pool.Balanced (s.record h e) := by
  rw [record]
  rcases he : s.poolEvent? e with _ | pe
  · rw [pool_eq_of_step? hs he]
    exact hb
  · exact hb.step (step?_pool hs he)

/-- True when a connection comes. -/
def Event.comes : Event → Bool
  | .connect _ | .turnAway _ => true
  | _ => false

theorem poolEvent?_cases {pe : Pool.Event Connection} (h : s.poolEvent? e = some pe) :
    e = .pool pe ∨ e.comes = true ∧ (∃ c, pe = .accept c ∨ pe = .drop c) ∨ (∃ n, pe = .add n) ∨
      pe = .signal ∨ pe = .loseSignal := by
  cases e with
  | pool e =>
    cases h
    exact .inl rfl
  | connect c =>
    cases h
    exact .inr (.inl ⟨rfl, c, .inl rfl⟩)
  | turnAway c =>
    cases h
    exact .inr (.inl ⟨rfl, c, .inr rfl⟩)
  | bind =>
    rw [poolEvent?] at h
    split at h
    · cases h
    · cases h
      exact .inr (.inr (.inl ⟨_, rfl⟩))
  | serve =>
    rw [poolEvent?] at h
    split at h
    · cases h
      exact .inr (.inr (.inl ⟨_, rfl⟩))
    · cases h
  | sendDue =>
    cases h
    exact .inr (.inr (.inr (.inl rfl)))
  | loseDue =>
    cases h
    exact .inr (.inr (.inr (.inr rfl)))
  | shutdown | stop | finish => cases h

/-- Workers take connections and are done with them by events of the pool only. -/
theorem eq_pool_of_poolEvent? {pe : Pool.Event Connection} (h : s.poolEvent? e = some pe)
    (hp : (∃ k, pe = .take k) ∨ ∃ k b, pe = .finish k b) : e = .pool pe := by
  obtain he | ⟨-, c, rfl | rfl⟩ | ⟨n, rfl⟩ | rfl | rfl := poolEvent?_cases h
  · exact he
  all_goals simp at hp

theorem accepted_connect (s : Server) (h : History Connection) (c : Connection) :
    (s.record h (.connect c)).accepted = h.accepted ++ [c] := by
  simp [record, poolEvent?, Pool.record, History.accepted]

/-- Only connections that come make a difference to how many have come. -/
theorem accepted_record (hs : s.step? e = some t) (hc : e.comes = false) :
    (s.record h e).accepted = h.accepted ∧ (s.record h e).dropped = h.dropped := by
  rw [record]
  rcases he : s.poolEvent? e with _ | pe
  · exact ⟨rfl, rfl⟩
  · obtain rfl | ⟨hcomes, -⟩ | ⟨n, rfl⟩ | rfl | rfl := poolEvent?_cases he
    · cases pe with
      | accept | drop => cases hs
      | signal => exact ⟨by simp [Pool.record, History.accepted], rfl⟩
      | add | loseSignal | take | finish | leave => exact ⟨rfl, rfl⟩
    · rw [hc] at hcomes
      cases hcomes
    · exact ⟨rfl, rfl⟩
    · exact ⟨by simp [Pool.record, History.accepted], rfl⟩
    · exact ⟨rfl, rfl⟩

/-- Only who takes a connection or is done with it makes a difference to who is serving. -/
theorem serving_of_step (hb : s.pool.Balanced h) (hs : s.step? e = some t)
    (ht : ∀ k, e ≠ .pool (.take k)) (hf : ∀ k b, e ≠ .pool (.finish k b)) :
    t.pool.serving = s.pool.serving ∧ (s.record h e).finished = h.finished := by
  rw [record]
  rcases he : s.poolEvent? e with _ | pe
  · rw [pool_eq_of_step? hs he]
    exact ⟨rfl, rfl⟩
  · refine Pool.serving_of_step hb.nodup_numbers (step?_pool hs he) ?_ ?_
    · rintro k rfl
      exact ht k (eq_pool_of_poolEvent? he (.inl ⟨k, rfl⟩))
    · rintro k b rfl
      exact hf k b (eq_pool_of_poolEvent? he (.inr ⟨k, b, rfl⟩))

theorem service_of_step (hs : s.step? e = some t) : t.service = s.service := by
  cases move_of_step? hs with
  | bind | serve =>
    rw [start]
    split <;> rfl
  | _ => rfl

theorem statistics_of_step (hs : s.step? e = some t) (hc : e.comes = false)
    (hf : ∀ k b, e ≠ .pool (.finish k b)) : t.statistics = s.statistics := by
  cases move_of_step? hs with
  | @pool e p inner hp =>
    cases e with
    | finish k b => exact absurd rfl (hf k b)
    | accept | drop | add | signal | loseSignal | take | leave => rfl
  | connect | turnAway => cases hc
  | bind | serve =>
    rw [start]
    split <;> rfl
  | stopAtOnce | shutdown | stop | sendDue | loseDue | finish => rfl

/-- The events that touch the counters or the connections, and all others. -/
theorem Event.cases_counting (e : Event) :
    e.comes = true ∨ (∃ k, e = .pool (.take k)) ∨ (∃ k b, e = .pool (.finish k b)) ∨
      e.comes = false ∧ (∀ k, e ≠ .pool (.take k)) ∧ ∀ k b, e ≠ .pool (.finish k b) := by
  cases e with
  | connect | turnAway => exact .inl rfl
  | pool e => cases e <;> simp [comes]
  | _ => exact .inr (.inr (.inr ⟨rfl, nofun, nofun⟩))

end Server

end PacketRpc
