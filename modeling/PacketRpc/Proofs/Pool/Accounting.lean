import Mathlib.Algebra.GroupWithZero.Nat
import PacketRpc.Proofs.Pool.History
import PacketRpc.Service.SharedPool

/-!
# Every worker is accounted for

A shared pool runs as its pool does (`SharedPool.pool_of_run`), so the balance of the pool holds of
it. What is left to show is that the roster keeps up with the pool. Whoever adds workers holds the
roster while one of them is started and not yet enrolled, so no worker can take itself off before it
is on (`SharedPool.Accounted.leave`). `SharedPool.workers_accounted` puts this together with what
the calls have sent.
-/

namespace PacketRpc

variable {C : Type}

namespace Pool

/-! ## Events that concern jobs -/

/-- A connection comes, or a worker takes a job or is done with one. -/
def Event.IsJob : Event C → Prop
  | .accept _ | .drop _ | .take _ | .finish .. => True
  | _ => False

section
variable {p q : Pool C} {e : Event C}

theorem Move.numbers_eq (hm : p.Move e q) (he : e.IsJob) : q.numbers = p.numbers := by
  cases hm with
  | accept | drop => rfl
  | takeConnection _ hw | takeExit _ hw | finish hw =>
    rw [numbers_of_split hw, numbers_of_split rfl]
  | _ => cases he

theorem added_record (h : History C) (he : e.IsJob) : (p.record h e).added = h.added := by
  cases e <;> first | rfl | cases he

theorem signals_record (h : History C) (he : e.IsJob) : (p.record h e).signals = h.signals := by
  cases e with
  | accept c => simp [record, History.signals]
  | drop | take | finish => rfl
  | _ => cases he

end

end Pool

namespace SharedPool

/-! ## What has happened -/

/-- What an event of a shared pool is to the pool. -/
def poolEvent? : Event C → Option (Pool.Event C)
  | .job e => some e
  | .start => some (.add 1)
  | .send _ => some .signal
  | .leave worker => some (.leave worker)
  | _ => none

/-- How many workers the calls have been asked to add. -/
def askedFor : List (Event C) → Nat
  | [] => 0
  | .beginAdding n :: es => n + askedFor es
  | _ :: es => askedFor es

/-- What has happened to the pool in the course of a run from an empty pool. -/
def history (capacity : Nat) (es : List (Event C)) : History C :=
  (Pool.empty capacity).history {} (es.filterMap poolEvent?)

/-- The worker that has been started and is not enrolled yet. -/
def unenrolled (s : SharedPool C) : List Nat := (s.adding.bind Adding.started).toList

/-- How many workers are still to be started. -/
def due (s : SharedPool C) : Nat := (s.adding.map Adding.due).getD 0

/-- How many signals to leave the calls have sent, those that are done and those under way. -/
def sent (s : SharedPool C) : Nat := s.removed.sum + (s.removing.map Removing.sent).sum

theorem run?_cons {s u : SharedPool C} {e : Event C} {es : List (Event C)} :
    s.run? (e :: es) = some u ↔ ∃ t, s.step? e = some t ∧ t.run? es = some u := by
  rw [run?, Option.bind_eq_some_iff]

/-! ## One step -/

/-- What an event does to a shared pool. -/
inductive Move (s : SharedPool C) : Event C → SharedPool C → Prop
  | job {e p} (he : e.IsJob) (hs : s.pool.step? e = some p) : Move s (.job e) { s with pool := p }
  | beginAdding (n : Nat) (free : s.adding = none) :
    Move s (.beginAdding n) { s with adding := some ⟨n, none⟩ }
  | start {due} (held : s.adding = some ⟨due + 1, none⟩) :
    Move s .start
      { s with pool := s.pool.enrol 1, adding := some ⟨due, some s.pool.nextNumber⟩ }
  | enrol {due k} (held : s.adding = some ⟨due, some k⟩) :
    Move s .enrol { s with roster := s.roster ++ [k], adding := some ⟨due, none⟩ }
  | endAdding (held : s.adding = some ⟨0, none⟩) : Move s .endAdding { s with adding := none }
  | beginRemoving (n : Nat) :
    Move s (.beginRemoving n) { s with removing := s.removing ++ [⟨n, 0⟩] }
  | send {before after due sent p} (call : s.removing = before ++ ⟨due + 1, sent⟩ :: after)
    (hs : s.pool.step? .signal = some p) :
    Move s (.send before.length)
      { s with pool := p, removing := before ++ ⟨due, sent + 1⟩ :: after }
  | giveUp {before after due sent} (call : s.removing = before ++ ⟨due + 1, sent⟩ :: after) :
    Move s (.giveUp before.length) { s with removing := before ++ ⟨due, sent⟩ :: after }
  | endRemoving {before after sent} (call : s.removing = before ++ ⟨0, sent⟩ :: after) :
    Move s (.endRemoving before.length)
      { s with removing := before ++ after, removed := s.removed ++ [sent] }
  | leave {k p} (free : s.adding = none) (hs : s.pool.step? (.leave k) = some p) :
    Move s (.leave k) { s with pool := p, roster := s.roster.erase k }

theorem exists_call {calls : List Removing} {i : Nat} {r : Removing} (h : calls[i]? = some r) :
    ∃ before after, calls = before ++ r :: after ∧ before.length = i := by
  obtain ⟨hi, rfl⟩ := List.getElem?_eq_some_iff.1 h
  exact ⟨calls.take i, calls.drop (i + 1), by simp, List.length_take_of_le (Nat.le_of_lt hi)⟩

theorem move_of_step? {s t : SharedPool C} {e : Event C} (hs : s.step? e = some t) :
    s.Move e t := by
  cases e with
  | job e =>
    cases e with
    | add | signal | loseSignal | leave => cases hs
    | _ =>
      simp only [step?, Option.map_eq_some_iff] at hs
      obtain ⟨p, hp, rfl⟩ := hs
      exact .job trivial hp
  | beginAdding n =>
    simp only [step?] at hs
    split at hs <;> cases hs
    exact .beginAdding n ‹_›
  | start =>
    simp only [step?] at hs
    split at hs
    · next held =>
      cases hs
      exact .start held
    · cases hs
  | enrol =>
    simp only [step?] at hs
    split at hs
    · next held =>
      cases hs
      exact .enrol held
    · cases hs
  | endAdding =>
    simp only [step?] at hs
    split at hs
    · next held =>
      cases hs
      exact .endAdding held
    · cases hs
  | beginRemoving n =>
    cases hs
    exact .beginRemoving n
  | send call =>
    simp only [step?] at hs
    split at hs
    · next due sent hc =>
      obtain ⟨p, hp, rfl⟩ := Option.map_eq_some_iff.1 hs
      obtain ⟨before, after, hr, rfl⟩ := exists_call hc
      have := Move.send hr hp
      simpa [hr] using this
    · cases hs
  | giveUp call =>
    simp only [step?] at hs
    split at hs
    · next due sent hc =>
      cases hs
      obtain ⟨before, after, hr, rfl⟩ := exists_call hc
      have := Move.giveUp hr
      simpa [hr] using this
    · cases hs
  | endRemoving call =>
    simp only [step?] at hs
    split at hs
    · next sent hc =>
      cases hs
      obtain ⟨before, after, hr, rfl⟩ := exists_call hc
      have := Move.endRemoving hr
      simpa [hr, List.eraseIdx_append_of_length_le] using this
    · cases hs
  | leave worker =>
    simp only [step?] at hs
    split at hs
    · next free =>
      obtain ⟨p, hp, rfl⟩ := Option.map_eq_some_iff.1 hs
      exact .leave free hp
    · cases hs

/-! ## The pool of a shared pool -/

/-- The history after one more event. -/
def record (s : SharedPool C) (h : History C) (e : Event C) : History C :=
  match poolEvent? e with
  | some pe => s.pool.record h pe
  | none => h

section
variable {s t : SharedPool C} {e : Event C}

/-- What is no event of the pool leaves the pool alone. -/
theorem Move.pool (hm : s.Move e t) :
    match poolEvent? e with
    | some pe => s.pool.step? pe = some t.pool
    | none => t.pool = s.pool := by
  cases hm with
  | job _ hs | send _ hs | leave _ hs => exact hs
  | _ => rfl

/-- A shared pool runs as its pool does. -/
theorem pool_of_run {es : List (Event C)} (hr : s.run? es = some t) :
    s.pool.run? (es.filterMap poolEvent?) = some t.pool := by
  induction es generalizing s with
  | nil =>
    cases hr
    rfl
  | cons e es ih =>
    obtain ⟨u, hs, hr⟩ := run?_cons.1 hr
    have hp := (move_of_step? hs).pool
    rcases he : poolEvent? e with _ | pe
    · rw [he] at hp
      rw [List.filterMap_cons_none he, ← hp]
      exact ih hr
    · rw [he] at hp
      rw [List.filterMap_cons_some he]
      exact Pool.run?_cons.2 ⟨_, hp, ih hr⟩

theorem history_cons (hs : s.step? e = some t) (h : History C) (es : List (Event C)) :
    s.pool.history h ((e :: es).filterMap poolEvent?) =
      t.pool.history (s.record h e) (es.filterMap poolEvent?) := by
  have hp := (move_of_step? hs).pool
  rcases he : poolEvent? e with _ | pe
  · rw [he] at hp
    rw [List.filterMap_cons_none he, record, he, hp]
  · rw [he] at hp
    rw [List.filterMap_cons_some he, Pool.history_cons hp, record, he]

theorem askedFor_cons (e : Event C) (es : List (Event C)) :
    askedFor (e :: es) = askedFor [e] + askedFor es := by
  cases e <;> simp [askedFor]

end

/-! ## The account -/

/-- A shared pool that is what its history makes of it, where calls have been asked to add `n`
workers. -/
structure Accounted (s : SharedPool C) (h : History C) (n : Nat) : Prop where
  balanced : s.pool.Balanced h
  /-- All that has been started and has not left is on the roster, or about to be. -/
  roster : (s.roster ++ s.unenrolled).Perm s.pool.numbers
  asked : n = h.added + s.due
  signals : h.signals = s.sent

namespace Accounted

variable {s t : SharedPool C} {h : History C} {n : Nat}

theorem empty (capacity : Nat) : Accounted (.empty capacity : SharedPool C) {} 0 where
  balanced := .empty capacity
  roster := .refl _
  asked := rfl
  signals := rfl

theorem unenrolled_of_free (hf : s.adding = none) : s.unenrolled = [] := by
  simp [unenrolled, hf]

/-- A worker on its way out finds its number on the roster, since nobody is adding workers. -/
theorem leave {k : Nat} {p : Pool C} (ha : Accounted s h n) (free : s.adding = none)
    (hs : s.pool.step? (.leave k) = some p) :
    Accounted { s with pool := p, roster := s.roster.erase k }
      { h with left := h.left ++ [k] } n := by
  obtain ⟨balanced, roster, asked, signals⟩ := ha
  refine ⟨balanced.step hs, ?_, asked, signals⟩
  cases Pool.move_of_step? balanced.nodup_numbers hs with
  | @leave _ before after hw =>
    rw [unenrolled_of_free free, List.append_nil, Pool.numbers_of_split hw] at roster
    have he := (roster.trans List.perm_middle).erase k
    rw [List.erase_cons_head] at he
    simpa [unenrolled, free, Pool.numbers] using he

/-- **Every event keeps the account.** -/
theorem step {e : Event C} (ha : Accounted s h n) (hs : s.step? e = some t) :
    Accounted t (s.record h e) (n + askedFor [e]) := by
  obtain ⟨balanced, roster, asked, signals⟩ := id ha
  cases move_of_step? hs with
  | @job e p he hp =>
    show Accounted _ (s.pool.record h e) n
    have hm := Pool.move_of_step? balanced.nodup_numbers hp
    refine ⟨balanced.step hp, ?_, ?_, ?_⟩
    · rw [hm.numbers_eq he]
      exact roster
    · rw [Pool.added_record h he]
      exact asked
    · rw [Pool.signals_record h he]
      exact signals
  | beginAdding m free =>
    show Accounted _ h (n + m)
    refine ⟨balanced, ?_, ?_, signals⟩
    · simpa [unenrolled, free] using roster
    · simpa [due, free] using asked
  | @start m held =>
    -- the worker is with the pool from here on, and stays due to the roster
    show Accounted _ { h with added := h.added + 1 } n
    refine ⟨balanced.enrol 1, ?_, ?_, signals⟩
    · have hn : (s.pool.enrol 1).numbers = s.pool.numbers ++ [s.pool.nextNumber] := by
        simp [Pool.enrol, Pool.numbers]
      have hr : s.roster.Perm s.pool.numbers := by simpa [unenrolled, held] using roster
      rw [hn]
      exact hr.append_right _
    · simp only [due, held, Option.map_some, Option.getD_some] at asked ⊢
      omega
  | @enrol m k held =>
    show Accounted _ h n
    refine ⟨balanced, ?_, ?_, signals⟩
    · simpa [unenrolled, held] using roster
    · simpa [due, held] using asked
  | endAdding held =>
    show Accounted _ h n
    refine ⟨balanced, ?_, ?_, signals⟩
    · simpa [unenrolled, held] using roster
    · simpa [due, held] using asked
  | beginRemoving m =>
    show Accounted _ h n
    exact ⟨balanced, roster, asked, by simpa [sent] using signals⟩
  | @send before after m sent p call hp =>
    show Accounted _ { h with enqueued := h.enqueued ++ [.exit] } n
    have hm := Pool.move_of_step? balanced.nodup_numbers hp
    refine ⟨balanced.step hp, ?_, asked, ?_⟩
    · cases hm
      exact roster
    · simp only [History.signals, SharedPool.sent, call] at signals ⊢
      simp at signals ⊢
      omega
  | @giveUp before after m sent call =>
    show Accounted _ h n
    exact ⟨balanced, roster, asked, by simpa [SharedPool.sent, call] using signals⟩
  | @endRemoving before after sent call =>
    show Accounted _ h n
    refine ⟨balanced, roster, asked, ?_⟩
    simp only [signals, SharedPool.sent, call]
    simp
    omega
  | leave free hp => exact ha.leave free hp

/-- What is right before a run is right after it. -/
theorem run {es : List (Event C)} (ha : Accounted s h n) (hr : s.run? es = some t) :
    Accounted t (s.pool.history h (es.filterMap poolEvent?)) (n + askedFor es) := by
  induction es generalizing s h n with
  | nil =>
    cases hr
    exact ha
  | cons e es ih =>
    obtain ⟨u, hs, hr⟩ := run?_cons.1 hr
    rw [history_cons hs, askedFor_cons, ← Nat.add_assoc]
    exact ih (ha.step hs) hr

/-- On the roster is who has been started and has not left, but for the one not enrolled yet. -/
theorem mem_roster {k : Nat} (ha : Accounted s h n) :
    k ∈ s.roster ++ s.unenrolled ↔ k < h.added ∧ k ∉ h.left := by
  have hd := ha.balanced.nodup
  rw [ha.roster.mem_iff, ← List.mem_range, ← ha.balanced.numbers.mem_iff, List.mem_append]
  constructor
  · exact fun hk => ⟨.inl hk, fun hl => List.disjoint_of_nodup_append hd hk hl⟩
  · rintro ⟨hk | hl, hn⟩
    · exact hk
    · exact absurd hl hn

/-- A worker on its way out can leave as soon as nobody adds workers, and is gone then. -/
theorem exists_leave {k : Nat} (ha : Accounted s h n) (hk : k ∈ s.pool.leaving)
    (hf : s.adding = none) :
    ∃ t, s.step? (.leave k) = some t ∧ k ∉ t.roster ∧ t.size + 1 = s.size := by
  have hw := Pool.mem_leaving.1 hk
  have hp := (Pool.activity?_eq_some ha.balanced.nodup_numbers).2 hw
  have hr : s.roster.Perm s.pool.numbers := by
    simpa [unenrolled_of_free hf] using ha.roster
  have hm : k ∈ s.roster := hr.mem_iff.2 (List.mem_map_of_mem (f := Worker.number) hw)
  obtain ⟨p, hs⟩ : ∃ p, s.pool.step? (.leave k) = some p :=
    ⟨_, by rw [Pool.step?, hp]⟩
  refine ⟨{ s with pool := p, roster := s.roster.erase k }, by simp [step?, hf, hs], ?_, ?_⟩
  · exact (hr.nodup_iff.2 ha.balanced.nodup_numbers).not_mem_erase
  · exact List.length_erase_add_one hm

end Accounted

/-- **Every worker is accounted for.** However the calls that add and remove workers, the
connections and the workers take turns: the workers that were asked for are on the roster, have
left, or are still due in the one call that is adding; the signals that were sent are in the queue
or have been taken. Each signal that was taken makes one worker leave, no worker leaves without one
or twice, and none is on the roster that has left. -/
theorem workers_accounted {capacity : Nat} {es : List (Event C)} {s : SharedPool C}
    (hr : (empty capacity).run? es = some s) :
    let h := history capacity es
    (Pool.empty capacity).run? (es.filterMap poolEvent?) = some s.pool ∧
    askedFor es = s.size + h.left.length + (s.unenrolled.length + s.due) ∧
    s.sent = s.pool.signals + h.dismissed.length ∧
    (h.dismissed.Nodup ∧ h.dismissed.Perm (s.pool.leaving ++ h.left)) ∧
    (∀ k ∈ s.pool.leaving, s.adding = none →
      ∃ t, s.step? (.leave k) = some t ∧ k ∉ t.roster ∧ t.size + 1 = s.size) ∧
    ((s.roster ++ s.unenrolled).Nodup ∧
      ∀ k, k ∈ s.roster ++ s.unenrolled ↔ k < h.added ∧ k ∉ h.left) ∧
    (∀ k ∈ h.left, k ∉ s.roster) ∧
    (s.pool.signals = 0 → s.pool.leaving = [] →
      askedFor es = s.size + s.sent + (s.unenrolled.length + s.due)) := by
  intro h
  have ha : Accounted s h (0 + askedFor es) := (Accounted.empty capacity).run hr
  rw [Nat.zero_add] at ha
  have asked : askedFor es = s.size + h.left.length + (s.unenrolled.length + s.due) := by
    have hs := ha.roster.length_eq
    rw [List.length_append, Pool.numbers, List.length_map] at hs
    rw [ha.asked, ha.balanced.added_eq, Pool.size, ← hs, size]
    omega
  have signals : s.sent = s.pool.signals + h.dismissed.length := by
    rw [← ha.signals, ha.balanced.signals_eq]
  refine ⟨pool_of_run hr, asked, signals, ⟨ha.balanced.nodup_dismissed, ha.balanced.dismissed⟩,
    fun k hk hf => ha.exists_leave hk hf, ⟨?_, fun k => ha.mem_roster⟩, fun k hl hk => ?_,
    fun hq hl => ?_⟩
  · exact ha.roster.nodup_iff.2 ha.balanced.nodup_numbers
  · exact (ha.mem_roster.1 (List.mem_append_left _ hk)).2 hl
  · have hn : h.dismissed.length = h.left.length := by
      simpa [hl] using ha.balanced.dismissed.length_eq
    rw [asked, signals, hq, hn, Nat.zero_add]

/-- Of three workers that are added, the second takes a signal before it is enrolled, and waits
until the others are; the first breaks off serving. Of four signals that two calls are to send one
is lost, and each of the others costs a worker. -/
theorem workers_accounted_run :
    let es : List (Event String) := [.job (.accept "a"), .beginAdding 3, .beginRemoving 3, .start,
      .job (.take 0), .send 0, .enrol, .start, .job (.take 1), .beginRemoving 1, .send 1, .giveUp 0,
      .enrol, .start, .enrol, .endAdding, .job (.finish 0 true), .leave 1, .endRemoving 1,
      .job (.take 0), .leave 0, .send 0, .endRemoving 0, .job (.take 2), .leave 2, .beginAdding 2,
      .start, .enrol, .start, .enrol, .endAdding]
    ∃ s, (empty 1).run? es = some s ∧ s.roster = [3, 4] ∧ s.removed = [1, 2] ∧
      askedFor es = s.size + s.sent := by
  intro es
  have hr : (empty 1).run? es = some
      { pool := { capacity := 1, workers := [⟨3, .idle⟩, ⟨4, .idle⟩], nextNumber := 5 },
        roster := [3, 4], removed := [1, 2] } := rfl
  obtain ⟨-, -, -, -, -, -, -, atRest⟩ := workers_accounted hr
  exact ⟨_, hr, rfl, rfl, atRest rfl rfl⟩

end SharedPool
end PacketRpc
