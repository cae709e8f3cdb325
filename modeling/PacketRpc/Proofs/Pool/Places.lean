import PacketRpc.Proofs.Pool.History

/-!
# Where the connections are

Once a pool has accepted a connection, the connection is in the queue, or with a worker, or done
with (`Place`). `Pool.accepted_in_one_place`: at every moment of every run it is in exactly one of
these, and what was turned away is in none. This comes from the balance of the pool and its history:
what was put into the queue is what has been taken and what waits, and what has been taken is with a
worker or done with.
-/

namespace PacketRpc

variable {C : Type}

/-- Where an accepted connection can be. -/
inductive Place
  | queue
  | worker (number : Nat)
  /-- A worker is done with it. -/
  | done (number : Nat)
  deriving DecidableEq, Repr

namespace Pool

variable {p : Pool C} {h : History C}

/-- The connections that a pool has to do with or had, each with its place. -/
def places (p : Pool C) (h : History C) : List (Place × C) :=
  p.queued.map (.queue, ·) ++
    (p.serving.map (fun t => (.worker t.1, t.2)) ++ h.finished.map fun t => (.done t.1, t.2))

theorem places_map_snd (p : Pool C) (h : History C) :
    (p.places h).map Prod.snd =
      p.queued ++ (p.serving.map Prod.snd ++ h.finished.map Prod.snd) := by
  simp [places, Function.comp_def]

theorem mem_places_worker {k : Nat} {c : C} : (.worker k, c) ∈ p.places h ↔ (k, c) ∈ p.serving := by
  simp [places]

theorem length_serving_le (p : Pool C) : p.serving.length ≤ p.size :=
  List.length_filterMap_le _ _

namespace Balanced

/-- Each accepted connection has its place. -/
theorem perm_places (hb : Balanced p h) : ((p.places h).map Prod.snd).Perm h.accepted := by
  rw [places_map_snd, hb.accepted_eq, ← List.map_append]
  exact List.perm_append_comm.trans ((hb.served.map Prod.snd).symm.append_right _)

end Balanced

/-- What occurs once in the second components has one partner. -/
theorem existsUnique_of_nodup_map {α β : Type} {l : List (α × β)} {b : β}
    (hd : (l.map Prod.snd).Nodup) (hb : b ∈ l.map Prod.snd) : ∃! a, (a, b) ∈ l := by
  obtain ⟨⟨a, _⟩, hm, rfl⟩ := List.mem_map.1 hb
  refine ⟨a, hm, fun a' hm' => ?_⟩
  exact congrArg Prod.fst (List.inj_on_of_nodup_map hd hm' hm rfl)

/-! ## The result -/

/-- **Every accepted connection is in exactly one place.** However accepting, adding and removing
workers and the workers themselves take turns: the queue keeps within its bounds; an accepted
connection waits, is served by one enrolled worker or is done with, and one that was turned away is
in none of these places; jobs are taken in the order in which they were queued, so that no
connection overtakes another one or a signal to leave; and no more connections are served than there
are workers. -/
theorem accepted_in_one_place {capacity : Nat} {es : List (Event C)} {p : Pool C}
    (hr : (empty capacity).run? es = some p) :
    let h := (empty capacity).history {} es
    p.queue.length ≤ max capacity 1 ∧
    ((p.places h).map Prod.snd).Perm h.accepted ∧
    ((h.accepted ++ h.dropped).Nodup →
      (∀ c ∈ h.accepted, ∃! place, (place, c) ∈ p.places h) ∧
      ∀ c ∈ h.dropped, ∀ place, (place, c) ∉ p.places h) ∧
    (∀ k c, (.worker k, c) ∈ p.places h ↔ p.activity? k = some (.serving c)) ∧
    h.enqueued = h.taken.map Prod.snd ++ p.queue ∧
    h.accepted = h.served.map Prod.snd ++ p.queued ∧
    p.serving.length ≤ p.size := by
  intro h
  have hb : Balanced p h := (Balanced.empty capacity).run hr
  have hp := hb.perm_places
  refine ⟨?_, hp, fun hd => ⟨fun c hc => ?_, fun c hc place hm => ?_⟩, fun k c => ?_, hb.order,
    hb.accepted_eq, length_serving_le p⟩
  · have := hb.room
    rwa [(Balanced.empty capacity).capacity_eq_of_run hr] at this
  · exact existsUnique_of_nodup_map (hp.nodup_iff.2 hd.of_append_left) (hp.mem_iff.2 hc)
  · have ha : c ∈ h.accepted := hp.mem_iff.1 (List.mem_map_of_mem (f := Prod.snd) hm)
    exact List.disjoint_of_nodup_append hd ha hc
  · rw [mem_places_worker, mem_serving, activity?_eq_some hb.nodup_numbers]

/-- One of two workers breaks off serving and takes a signal, behind which a connection waits. -/
theorem accepted_in_one_place_run :
    let es : List (Event String) := [.accept "a", .add 2, .take 0, .accept "b", .signal, .drop "c",
      .take 1, .finish 0 true, .accept "d", .take 0]
    ∃ p, (empty 2).run? es = some p ∧
      p.places ((empty 2).history {} es) =
        [(.queue, "d"), (.worker 1, "b"), (.done 0, "a")] ∧
      (∃! place, (place, "b") ∈ p.places ((empty 2).history {} es)) ∧
      ∀ place, (place, "c") ∉ p.places ((empty 2).history {} es) := by
  intro es
  have hr : (empty 2).run? es = some
      { capacity := 2, queue := [.connection "d"],
        workers := [⟨0, .leaving⟩, ⟨1, .serving "b"⟩], nextNumber := 2 } := rfl
  have hd : ((empty 2).history {} es).accepted ++ ((empty 2).history {} es).dropped =
    ["a", "b", "d", "c"] := by decide
  obtain ⟨-, -, place, -⟩ := accepted_in_one_place hr
  obtain ⟨accepted, dropped⟩ := place (by rw [hd]; decide)
  exact ⟨_, hr, by decide, accepted "b" (by decide), dropped "c" (by decide)⟩

end Pool
end PacketRpc
