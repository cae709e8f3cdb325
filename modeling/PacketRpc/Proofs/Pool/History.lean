import Mathlib.Data.List.Nodup
import PacketRpc.Service.Pool

/-!
# What has happened to a pool

`Pool.history` lists what has happened in the course of a run: which jobs were put into the queue
and which connections were turned away, who took which job, and who is done with what.
`Pool.Balanced` ties the pool to its history. Jobs are taken in the order in which they came, and
what has been taken is with a worker or done with. It holds after every run (`Pool.Balanced.run`)
because every event keeps it (`Pool.Balanced.step`).
-/

namespace PacketRpc

variable {C : Type}

/-! ## Jobs -/

namespace Job

def connection? : Job C → Option C
  | connection c => some c
  | exit => none

def isExit : Job C → Bool
  | connection _ => false
  | exit => true

@[simp] theorem connection?_connection (c : C) : (connection c).connection? = some c := rfl
@[simp] theorem connection?_exit : (exit : Job C).connection? = none := rfl
@[simp] theorem isExit_connection (c : C) : (connection c).isExit = false := rfl
@[simp] theorem isExit_exit : (exit : Job C).isExit = true := rfl

end Job

/-! ## Histories -/

/-- What has happened to a pool, each list in the order of time. -/
structure History (C : Type) where
  /-- The jobs that were put into the queue. -/
  enqueued : List (Job C) := []
  /-- The connections that were turned away. -/
  dropped : List C := []
  /-- How many workers were enrolled. -/
  added : Nat := 0
  /-- Who took which job. -/
  taken : List (Nat × Job C) := []
  /-- Who was done with which connection. -/
  finished : List (Nat × C) := []
  /-- The workers that left. -/
  left : List Nat := []

namespace History

/-- The connections that were queued. -/
def accepted (h : History C) : List C := h.enqueued.filterMap Job.connection?

def served? : Nat × Job C → Option (Nat × C)
  | (k, .connection c) => some (k, c)
  | (_, .exit) => none

def dismissed? : Nat × Job C → Option Nat
  | (_, .connection _) => none
  | (k, .exit) => some k

section
variable (k : Nat) (c : C)

@[simp] theorem served?_connection : served? (k, .connection c) = some (k, c) := rfl
@[simp] theorem served?_exit : served? (k, (.exit : Job C)) = none := rfl
@[simp] theorem dismissed?_connection : dismissed? (k, .connection c) = none := rfl
@[simp] theorem dismissed?_exit : dismissed? (k, (.exit : Job C)) = some k := rfl

end

/-- Who took which connection. -/
def served (h : History C) : List (Nat × C) := h.taken.filterMap served?

/-- The workers that took a signal to leave. -/
def dismissed (h : History C) : List Nat := h.taken.filterMap dismissed?

/-- How many signals to leave were queued. -/
def signals (h : History C) : Nat := h.enqueued.countP Job.isExit

end History

namespace Worker

def serves? (w : Worker C) : Option (Nat × C) :=
  match w.activity with
  | .serving c => some (w.number, c)
  | _ => none

def leaves? (w : Worker C) : Option Nat :=
  match w.activity with
  | .leaving => some w.number
  | _ => none

section
variable (k : Nat) (c : C)

@[simp] theorem serves?_idle : (⟨k, .idle⟩ : Worker C).serves? = none := rfl
@[simp] theorem serves?_serving : (⟨k, .serving c⟩ : Worker C).serves? = some (k, c) := rfl
@[simp] theorem serves?_leaving : (⟨k, .leaving⟩ : Worker C).serves? = none := rfl
@[simp] theorem leaves?_idle : (⟨k, .idle⟩ : Worker C).leaves? = none := rfl
@[simp] theorem leaves?_serving : (⟨k, .serving c⟩ : Worker C).leaves? = none := rfl
@[simp] theorem leaves?_leaving : (⟨k, .leaving⟩ : Worker C).leaves? = some k := rfl

end

end Worker

namespace Pool

/-- The connections in the queue. -/
def queued (p : Pool C) : List C := p.queue.filterMap Job.connection?

/-- How many signals to leave are in the queue. -/
def signals (p : Pool C) : Nat := p.queue.countP Job.isExit

/-- Which worker is serving which connection. -/
def serving (p : Pool C) : List (Nat × C) := p.workers.filterMap Worker.serves?

/-- The workers that are on their way out. -/
def leaving (p : Pool C) : List Nat := p.workers.filterMap Worker.leaves?

/-- The numbers of the workers. -/
def numbers (p : Pool C) : List Nat := p.workers.map Worker.number

/-- The connection that the worker of a number is serving. -/
def served? (p : Pool C) (number : Nat) : Option C :=
  match p.activity? number with
  | some (.serving c) => some c
  | _ => none

/-- The history after one more event. -/
def record (p : Pool C) (h : History C) : Event C → History C
  | .accept c => { h with enqueued := h.enqueued ++ [.connection c] }
  | .drop c => { h with dropped := h.dropped ++ [c] }
  | .add n => { h with added := h.added + n }
  | .signal => { h with enqueued := h.enqueued ++ [.exit] }
  | .loseSignal => h
  | .take worker => { h with taken := h.taken ++ p.queue.head?.toList.map (worker, ·) }
  | .finish worker _ =>
    { h with finished := h.finished ++ (p.served? worker).toList.map (worker, ·) }
  | .leave worker => { h with left := h.left ++ [worker] }

/-- The history after a run. -/
def history (p : Pool C) (h : History C) : List (Event C) → History C
  | [] => h
  | e :: es =>
    match p.step? e with
    | some q => q.history (p.record h e) es
    | none => h

theorem history_cons {p q : Pool C} {e : Event C} (hs : p.step? e = some q) (h : History C)
    (es : List (Event C)) : p.history h (e :: es) = q.history (p.record h e) es := by
  rw [history, hs]

theorem run?_cons {p r : Pool C} {e : Event C} {es : List (Event C)} :
    p.run? (e :: es) = some r ↔ ∃ q, p.step? e = some q ∧ q.run? es = some r := by
  rw [run?, Option.bind_eq_some_iff]

/-! ## One step -/

/-- What an event does to a pool whose workers have numbers of their own. -/
inductive Move (p : Pool C) : Event C → Pool C → Prop
  | accept (c : C) (room : p.queue.length < p.capacity) :
    Move p (.accept c) (p.enqueue (.connection c))
  | drop (c : C) : Move p (.drop c) p
  | add (n : Nat) : Move p (.add n) (p.enrol n)
  | signal (room : p.queue.length < p.capacity) : Move p .signal (p.enqueue .exit)
  | loseSignal : Move p .loseSignal p
  | takeConnection {k c jobs before after} (front : p.queue = .connection c :: jobs)
    (who : p.workers = before ++ ⟨k, .idle⟩ :: after) :
    Move p (.take k) { p with queue := jobs, workers := before ++ ⟨k, .serving c⟩ :: after }
  | takeExit {k jobs before after} (front : p.queue = .exit :: jobs)
    (who : p.workers = before ++ ⟨k, .idle⟩ :: after) :
    Move p (.take k) { p with queue := jobs, workers := before ++ ⟨k, .leaving⟩ :: after }
  | finish {k c broken before after} (who : p.workers = before ++ ⟨k, .serving c⟩ :: after) :
    Move p (.finish k broken) { p with workers := before ++ ⟨k, .idle⟩ :: after }
  | leave {k before after} (who : p.workers = before ++ ⟨k, .leaving⟩ :: after) :
    Move p (.leave k) { p with workers := before ++ after }

section
variable {p q : Pool C} {k : Nat} {a b : Activity C} {before after : List (Worker C)}

theorem exists_split (h : p.activity? k = some a) :
    ∃ before after, p.workers = before ++ ⟨k, a⟩ :: after := by
  obtain ⟨⟨number, activity⟩, hf, rfl⟩ := Option.map_eq_some_iff.1 h
  obtain ⟨hk, before, after, hw, -⟩ := List.find?_eq_some_iff_append.1 hf
  obtain rfl : number = k := by simpa using hk
  exact ⟨before, after, hw⟩

/-- Where numbers are given once, the others have other numbers. -/
theorem ne_of_split (hd : p.numbers.Nodup) (hw : p.workers = before ++ ⟨k, a⟩ :: after) :
    (∀ w ∈ before, w.number ≠ k) ∧ ∀ w ∈ after, w.number ≠ k := by
  rw [numbers, hw, List.map_append, List.map_cons, List.nodup_middle, List.nodup_cons] at hd
  simpa [not_or] using hd.1

theorem activity?_of_split (hd : p.numbers.Nodup) (hw : p.workers = before ++ ⟨k, a⟩ :: after) :
    p.activity? k = some a := by
  have hb : before.find? (·.number == k) = none := by simpa using (ne_of_split hd hw).1
  simp [activity?, hw, hb]

theorem activity?_eq_some (hd : p.numbers.Nodup) : p.activity? k = some a ↔ ⟨k, a⟩ ∈ p.workers := by
  constructor
  · intro ha
    obtain ⟨before, after, hw⟩ := exists_split ha
    simp [hw]
  · intro hm
    obtain ⟨before, after, hw⟩ := List.append_of_mem hm
    exact activity?_of_split hd hw

theorem mem_serving {c : C} : (k, c) ∈ p.serving ↔ ⟨k, .serving c⟩ ∈ p.workers := by
  rw [serving, List.mem_filterMap]
  constructor
  · rintro ⟨⟨number, _ | d | _⟩, hw, hs⟩ <;> cases hs
    exact hw
  · exact fun hw => ⟨_, hw, rfl⟩

theorem mem_leaving : k ∈ p.leaving ↔ ⟨k, .leaving⟩ ∈ p.workers := by
  rw [leaving, List.mem_filterMap]
  constructor
  · rintro ⟨⟨number, _ | d | _⟩, hw, hs⟩ <;> cases hs
    exact hw
  · exact fun hw => ⟨_, hw, rfl⟩

theorem setActivity_of_split (hd : p.numbers.Nodup) (hw : p.workers = before ++ ⟨k, a⟩ :: after) :
    p.setActivity k b = { p with workers := before ++ ⟨k, b⟩ :: after } := by
  have others : ∀ ws : List (Worker C), (∀ w ∈ ws, w.number ≠ k) →
      ws.map (fun w => if w.number == k then { w with activity := b } else w) = ws := by
    intro ws h
    conv_rhs => rw [← List.map_id ws]
    exact List.map_congr_left fun w hm => by simp [h w hm]
  obtain ⟨hb, ha⟩ := ne_of_split hd hw
  rw [setActivity, hw, List.map_append, List.map_cons, others before hb, others after ha]
  simp

theorem filter_of_split (hd : p.numbers.Nodup) (hw : p.workers = before ++ ⟨k, a⟩ :: after) :
    p.workers.filter (·.number != k) = before ++ after := by
  have others : ∀ ws : List (Worker C), (∀ w ∈ ws, w.number ≠ k) →
      ws.filter (·.number != k) = ws := fun ws h => List.filter_eq_self.2 (by simpa using h)
  obtain ⟨hb, ha⟩ := ne_of_split hd hw
  simp [hw, others before hb, others after ha]

theorem numbers_of_split {w : Worker C} (hw : p.workers = before ++ w :: after) :
    p.numbers = before.map Worker.number ++ w.number :: after.map Worker.number := by
  simp [numbers, hw]

theorem serving_of_split {w : Worker C} (hw : p.workers = before ++ w :: after) :
    p.serving = before.filterMap Worker.serves? ++
      (w.serves?.toList ++ after.filterMap Worker.serves?) := by
  cases hs : w.serves? <;> simp [serving, hw, hs]

theorem leaving_of_split {w : Worker C} (hw : p.workers = before ++ w :: after) :
    p.leaving = before.filterMap Worker.leaves? ++
      (w.leaves?.toList ++ after.filterMap Worker.leaves?) := by
  cases hs : w.leaves? <;> simp [leaving, hw, hs]

theorem hasRoom_iff : p.hasRoom = true ↔ p.queue.length < p.capacity := decide_eq_true_iff

/-- Taking, finishing and leaving touch one worker only. -/
theorem move_of_step? {e : Event C} (hd : p.numbers.Nodup) (hs : p.step? e = some q) :
    p.Move e q := by
  cases e with
  | accept c =>
    obtain ⟨hr, rfl⟩ : p.hasRoom = true ∧ _ := by simpa [step?] using hs
    exact .accept c (hasRoom_iff.1 hr)
  | drop c =>
    cases hs
    exact .drop c
  | add n =>
    cases hs
    exact .add n
  | signal =>
    obtain ⟨hr, rfl⟩ : p.hasRoom = true ∧ _ := by simpa [step?] using hs
    exact .signal (hasRoom_iff.1 hr)
  | loseSignal =>
    cases hs
    exact .loseSignal
  | take k =>
    simp only [step?] at hs
    split at hs
    · next c jobs ha hq =>
      cases hs
      obtain ⟨before, after, hw⟩ := exists_split ha
      rw [setActivity_of_split (p := { p with queue := jobs }) hd hw]
      exact .takeConnection hq hw
    · next jobs ha hq =>
      cases hs
      obtain ⟨before, after, hw⟩ := exists_split ha
      rw [setActivity_of_split (p := { p with queue := jobs }) hd hw]
      exact .takeExit hq hw
    · cases hs
  | finish k broken =>
    simp only [step?] at hs
    split at hs
    · next c ha =>
      cases hs
      obtain ⟨before, after, hw⟩ := exists_split ha
      rw [setActivity_of_split hd hw]
      exact .finish hw
    · cases hs
  | leave k =>
    simp only [step?] at hs
    split at hs
    · next ha =>
      cases hs
      obtain ⟨before, after, hw⟩ := exists_split ha
      rw [filter_of_split hd hw]
      exact .leave hw
    · cases hs

theorem Move.capacity_eq {e : Event C} (hm : p.Move e q) : q.capacity = p.capacity := by
  cases hm <;> rfl

end

/-! ## The balance -/

theorem filterMap_singleton {α β : Type} (f : α → Option β) (a : α) :
    [a].filterMap f = (f a).toList := by
  cases ha : f a <;> simp [ha]

theorem perm_put {α : Type} {l before after rest : List α}
    (h : l.Perm (before ++ after ++ rest)) (x : Option α) :
    (l ++ x.toList).Perm (before ++ (x.toList ++ after) ++ rest) := by
  cases x with
  | none => simpa using h
  | some x =>
    rw [List.append_assoc] at h
    simpa using (List.perm_append_singleton x l).trans ((h.cons x).trans List.perm_middle.symm)

theorem perm_move {α : Type} {l before after rest : List α} {x : α}
    (h : l.Perm (before ++ x :: after ++ rest)) : l.Perm (before ++ after ++ (rest ++ [x])) := by
  rw [← List.append_assoc]
  rw [List.append_assoc, List.cons_append] at h
  refine h.trans (List.perm_middle.trans ?_)
  rw [← List.append_assoc]
  exact (List.perm_append_singleton x _).symm

/-- A pool that is what its history makes of it. -/
structure Balanced (p : Pool C) (h : History C) : Prop where
  room : p.queue.length ≤ p.capacity
  /-- Jobs leave the queue in the order in which they came. -/
  order : h.enqueued = h.taken.map Prod.snd ++ p.queue
  added : p.nextNumber = h.added
  numbers : (p.numbers ++ h.left).Perm (List.range h.added)
  served : h.served.Perm (p.serving ++ h.finished)
  dismissed : h.dismissed.Perm (p.leaving ++ h.left)

namespace Balanced

variable {p q : Pool C} {h : History C}

theorem empty (capacity : Nat) : Balanced (.empty capacity : Pool C) {} where
  room := Nat.zero_le _
  order := rfl
  added := rfl
  numbers := .refl _
  served := .refl _
  dismissed := .refl _

theorem nodup (hb : Balanced p h) : (p.numbers ++ h.left).Nodup :=
  hb.numbers.nodup_iff.2 List.nodup_range

theorem nodup_numbers (hb : Balanced p h) : p.numbers.Nodup := hb.nodup.of_append_left

theorem enqueue (hb : Balanced p h) (hr : p.queue.length < p.capacity) (j : Job C) :
    Balanced (p.enqueue j) { h with enqueued := h.enqueued ++ [j] } where
  room := by simpa [Pool.enqueue] using Nat.succ_le_of_lt hr
  order := by rw [hb.order, List.append_assoc]; rfl
  added := hb.added
  numbers := hb.numbers
  served := hb.served
  dismissed := hb.dismissed

/-- New workers have numbers of their own, and nothing to do. -/
theorem enrol (hb : Balanced p h) (n : Nat) :
    Balanced (p.enrol n) { h with added := h.added + n } := by
  obtain ⟨room, order, added, numbers, served, dismissed⟩ := hb
  let new := (List.range' p.nextNumber n).map fun k => (⟨k, .idle⟩ : Worker C)
  have hnew : new.map Worker.number = List.range' h.added n := by
    simp [new, added, Function.comp_def]
  have hserves : new.filterMap Worker.serves? = [] := by simp [new]
  have hleaves : new.filterMap Worker.leaves? = [] := by simp [new]
  have hworkers : (p.enrol n).workers = p.workers ++ new := rfl
  refine ⟨room, order, by simp [Pool.enrol, added], ?_, ?_, ?_⟩
  -- the new numbers follow those that have ever been given
  · have hrange : List.range (h.added + n) = List.range h.added ++ List.range' h.added n := by
      simpa [List.range_eq_range'] using (List.range'_append_1 (s := 0)).symm
    rw [Pool.numbers, hworkers, List.map_append, hnew, hrange, List.append_assoc]
    refine (List.perm_append_comm.append_left _).trans ?_
    rw [← List.append_assoc]
    exact numbers.append_right _
  · rwa [serving, hworkers, List.filterMap_append, hserves, List.append_nil]
  · rwa [leaving, hworkers, List.filterMap_append, hleaves, List.append_nil]

section
variable {k : Nat} {before after : List (Worker C)}

/-- A worker that takes a job goes over to what the job asks for. -/
theorem take {j : Job C} {jobs : List (Job C)} {a : Activity C} (hb : Balanced p h)
    (hq : p.queue = j :: jobs) (hw : p.workers = before ++ ⟨k, .idle⟩ :: after)
    (hs : History.served? (k, j) = Worker.serves? ⟨k, a⟩)
    (hl : History.dismissed? (k, j) = Worker.leaves? ⟨k, a⟩) :
    Balanced { p with queue := jobs, workers := before ++ ⟨k, a⟩ :: after }
      { h with taken := h.taken ++ [(k, j)] } := by
  obtain ⟨room, order, added, numbers, served, dismissed⟩ := hb
  rw [hq] at room
  rw [numbers_of_split hw] at numbers
  rw [serving_of_split hw, History.served] at served
  rw [leaving_of_split hw, History.dismissed] at dismissed
  refine ⟨Nat.le_of_succ_le room, by simp [order, hq], added, ?_, ?_, ?_⟩
  · rwa [numbers_of_split rfl]
  · rw [serving_of_split rfl, History.served, List.filterMap_append, filterMap_singleton, hs]
    exact perm_put served _
  · rw [leaving_of_split rfl, History.dismissed, List.filterMap_append, filterMap_singleton, hl]
    exact perm_put dismissed _

theorem finish {c : C} (hb : Balanced p h) (hw : p.workers = before ++ ⟨k, .serving c⟩ :: after) :
    Balanced { p with workers := before ++ ⟨k, .idle⟩ :: after }
      { h with finished := h.finished ++ [(k, c)] } := by
  obtain ⟨room, order, added, numbers, served, dismissed⟩ := hb
  rw [numbers_of_split hw] at numbers
  rw [serving_of_split hw] at served
  rw [leaving_of_split hw] at dismissed
  refine ⟨room, order, added, ?_, ?_, ?_⟩
  · rwa [numbers_of_split rfl]
  · rw [serving_of_split rfl]
    exact perm_move served
  · rwa [leaving_of_split rfl]

theorem leave (hb : Balanced p h) (hw : p.workers = before ++ ⟨k, .leaving⟩ :: after) :
    Balanced { p with workers := before ++ after } { h with left := h.left ++ [k] } := by
  obtain ⟨room, order, added, numbers, served, dismissed⟩ := hb
  rw [numbers_of_split hw] at numbers
  rw [serving_of_split hw] at served
  rw [leaving_of_split hw] at dismissed
  refine ⟨room, order, added, ?_, ?_, ?_⟩
  · rw [Pool.numbers, List.map_append]
    exact (perm_move numbers.symm).symm
  · rw [serving, List.filterMap_append]
    exact served
  · rw [leaving, List.filterMap_append]
    exact perm_move dismissed

end

/-- **Every event keeps the balance.** -/
theorem step {e : Event C} (hb : Balanced p h) (hs : p.step? e = some q) :
    Balanced q (p.record h e) := by
  have hd := hb.nodup_numbers
  cases move_of_step? hd hs with
  | accept c room => exact hb.enqueue room _
  | signal room => exact hb.enqueue room _
  | drop c => exact ⟨hb.room, hb.order, hb.added, hb.numbers, hb.served, hb.dismissed⟩
  | loseSignal => exact hb
  | add n => exact hb.enrol n
  | @takeConnection k c jobs before after hq hw =>
    simpa [record, hq] using hb.take (a := .serving c) hq hw rfl rfl
  | @takeExit k jobs before after hq hw =>
    simpa [record, hq] using hb.take (a := .leaving) hq hw rfl rfl
  | @finish k c broken before after hw =>
    simpa [record, served?, activity?_of_split hd hw] using hb.finish hw
  | @leave k before after hw => exact hb.leave hw

/-- Whatever the run, the balance holds after it if it held before. -/
theorem run {es : List (Event C)} (hb : Balanced p h) (hr : p.run? es = some q) :
    Balanced q (p.history h es) := by
  induction es generalizing p h with
  | nil =>
    cases hr
    exact hb
  | cons e es ih =>
    obtain ⟨r, hs, hr⟩ := run?_cons.1 hr
    rw [history_cons hs]
    exact ih (hb.step hs) hr

theorem capacity_eq_of_run {es : List (Event C)} (hb : Balanced p h) (hr : p.run? es = some q) :
    q.capacity = p.capacity := by
  induction es generalizing p h with
  | nil =>
    cases hr
    rfl
  | cons e es ih =>
    obtain ⟨r, hs, hr⟩ := run?_cons.1 hr
    exact (ih (hb.step hs) hr).trans (move_of_step? hb.nodup_numbers hs).capacity_eq

end Balanced

/-! ## What the balance says -/

theorem filterMap_connection?_taken (taken : List (Nat × Job C)) :
    (taken.map Prod.snd).filterMap Job.connection? =
      (taken.filterMap History.served?).map Prod.snd := by
  rw [List.filterMap_map, List.map_filterMap]
  refine List.filterMap_congr fun t _ => ?_
  rcases t with ⟨k, c | _⟩ <;> rfl

theorem countP_isExit_taken (taken : List (Nat × Job C)) :
    (taken.map Prod.snd).countP Job.isExit = (taken.filterMap History.dismissed?).length := by
  induction taken with
  | nil => rfl
  | cons t taken ih => rcases t with ⟨k, c | _⟩ <;> simp [List.filterMap_cons, List.countP_cons, ih]

theorem leaving_sublist (p : Pool C) : p.leaving.Sublist p.numbers := by
  unfold leaving numbers
  induction p.workers with
  | nil => exact .slnil
  | cons w ws ih =>
    rcases w with ⟨k, _ | c | _⟩
    · exact ih.cons k
    · exact ih.cons k
    · exact ih.cons_cons k

namespace Balanced

variable {p : Pool C} {h : History C}

/-- Connections are taken in the order in which they were accepted. -/
theorem accepted_eq (hb : Balanced p h) : h.accepted = h.served.map Prod.snd ++ p.queued := by
  rw [History.accepted, hb.order, List.filterMap_append, filterMap_connection?_taken]
  rfl

/-- A signal that was queued waits or has been taken. -/
theorem signals_eq (hb : Balanced p h) : h.signals = p.signals + h.dismissed.length := by
  rw [History.signals, hb.order, List.countP_append, countP_isExit_taken, Nat.add_comm]
  rfl

/-- A worker that was enrolled is enrolled or has left. -/
theorem added_eq (hb : Balanced p h) : h.added = p.size + h.left.length := by
  simpa [Pool.numbers, size] using hb.numbers.length_eq.symm

/-- No worker takes two signals. -/
theorem nodup_dismissed (hb : Balanced p h) : h.dismissed.Nodup :=
  hb.dismissed.nodup_iff.2 (((leaving_sublist p).append_right _).nodup hb.nodup)

end Balanced
end Pool
end PacketRpc
