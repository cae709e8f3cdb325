import Mathlib.Logic.Relation
import PacketRpc.Proofs.Pool.Accounting

/-!
# Shrinking and growing

A signal to leave is for whoever takes it, so signals that find no worker wait for those that are
enrolled later. The account of the pool says what comes of it: at rest, the workers that were asked
for are enrolled but for one for each signal that was sent, and signals wait only where no worker is
left (`SharedPool.Accounted.atRest`). Work always comes to rest, because every step lowers the load
of the pool (`SharedPool.exists_atRest`), and neither of the two calls can get stuck
(`SharedPool.exists_settles_removing`, `SharedPool.exists_settles_adding`).
`SharedPool.surplus_signals_wait` puts these together for a pool that shrinks and then grows.
-/

namespace PacketRpc

variable {C : Type}

namespace Pool

/-- True of a worker that has taken a job. -/
def Busy (w : Worker C) : Bool :=
  match w.activity with
  | .idle => false
  | _ => true

/-- How many steps the workers of a pool can have before them: two for each job in the queue, and
one for each that has been taken. -/
def load (p : Pool C) : Nat := 2 * p.queue.length + p.workers.countP Busy

/-- What workers do of themselves lowers the load, and puts nothing into the queue. -/
theorem Move.load_lt {p q : Pool C} {e : Event C} (hm : p.Move e q)
    (he : (∃ k, e = .take k) ∨ (∃ k broken, e = .finish k broken) ∨ ∃ k, e = .leave k) :
    q.queue.length ≤ p.queue.length ∧ q.load < p.load := by
  cases hm with
  | takeConnection hq hw | takeExit hq hw =>
    simp [load, hq, hw, Busy, List.countP_append, List.countP_cons]
    omega
  | finish hw | leave hw => simp [load, hw, Busy, List.countP_append, List.countP_cons]
  | _ => simp at he

end Pool

namespace SharedPool

/-! ## Kinds of events -/

/-- True of what workers do of themselves. -/
def Event.IsWork : Event C → Prop
  | .job (.take _) | .job (.finish ..) | .leave _ => True
  | _ => False

/-- Work, and what the only call that removes workers does until it ends. -/
def Event.IsShrinking (e : Event C) : Prop := e.IsWork ∨ e = .send 0

/-- Work, and what the call that adds workers does until it ends. -/
def Event.IsGrowing (e : Event C) : Prop := e.IsWork ∨ e = .start ∨ e = .enrol

/-- By events of a kind, one pool comes to be the other. -/
def Reaches (P : Event C → Prop) : SharedPool C → SharedPool C → Prop :=
  Relation.ReflTransGen fun s t => ∃ e, P e ∧ s.step? e = some t

/-- No worker can do anything of itself. -/
def AtRest (s : SharedPool C) : Prop := ∀ e : Event C, e.IsWork → s.step? e = none

/-- By events of a kind, up to one that ends a call, and by work behind it, a pool comes to rest as
another. -/
def Settles (P : Event C → Prop) (last : Event C) (s t : SharedPool C) : Prop :=
  ∃ u v, Reaches P s u ∧ u.step? last = some v ∧ Reaches Event.IsWork v t ∧ t.AtRest

variable {s t u : SharedPool C} {h : History C} {k : Nat}

theorem Settles.of_reaches {P : Event C → Prop} {last : Event C} (hr : Reaches P s t)
    (ht : Settles P last t u) : Settles P last s u := by
  obtain ⟨v, w, hv, hrest⟩ := ht
  exact ⟨v, w, hr.trans hv, hrest⟩

theorem reaches_of_run {P : Event C → Prop} (es : List (Event C)) (hP : ∀ e ∈ es, P e)
    (hr : s.run? es = some t) : Reaches P s t := by
  induction es generalizing s with
  | nil =>
    cases hr
    exact .refl
  | cons e es ih =>
    obtain ⟨u, hs, hr⟩ := run?_cons.1 hr
    exact .head ⟨e, hP e List.mem_cons_self, hs⟩
      (ih (fun e he => hP e (List.mem_cons_of_mem _ he)) hr)

/-- Idle workers can do nothing without jobs. -/
theorem atRest_of_idle (hw : ∀ w ∈ s.pool.workers, w.activity = .idle)
    (hq : s.pool.workers = [] ∨ s.pool.queue = []) : s.AtRest := by
  have hidle {j : Nat} {a : Activity C} (ha : s.pool.activity? j = some a) : a = .idle := by
    obtain ⟨before, after, hs⟩ := Pool.exists_split ha
    exact hw _ (hs ▸ List.mem_append_right _ List.mem_cons_self)
  have htake (j : Nat) : s.pool.step? (.take j) = none := by
    rcases hq with hnil | hnil
    · simp [Pool.step?, Pool.activity?, hnil]
    · simp [Pool.step?, hnil]
  have hfinish (j : Nat) (broken : Bool) : s.pool.step? (.finish j broken) = none := by
    simp only [Pool.step?]
    split
    · next ha => cases hidle ha
    · rfl
  have hleave (j : Nat) : s.pool.step? (.leave j) = none := by
    simp only [Pool.step?]
    split
    · next ha => cases hidle ha
    · rfl
  intro e he
  cases e with
  | job e =>
    cases e with
    | take j => simp [step?, htake]
    | finish j broken => simp [step?, hfinish]
    | _ => exact he.elim
  | leave j =>
    simp only [step?, hleave]
    split <;> rfl
  | _ => exact he.elim

/-! ## Accounts of what is reached -/

/-- What is reached without a further call is accounted for as before. -/
theorem Accounted.reaches {P : Event C → Prop} (hP : ∀ e, P e → askedFor [e] = 0)
    (ha : Accounted s h k) (hr : Reaches P s t) : ∃ h', Accounted t h' k := by
  induction hr with
  | refl => exact ⟨h, ha⟩
  | tail _ hs ih =>
    obtain ⟨e, he, hs⟩ := hs
    obtain ⟨h', ha⟩ := ih
    exact ⟨_, by simpa [hP e he] using ha.step hs⟩

theorem askedFor_of_isWork {e : Event C} (he : e.IsWork) : askedFor [e] = 0 := by
  cases e with
  | beginAdding => exact he.elim
  | _ => rfl

theorem askedFor_of_isShrinking {e : Event C} (he : e.IsShrinking) : askedFor [e] = 0 := by
  rcases he with he | rfl
  · exact askedFor_of_isWork he
  · rfl

theorem askedFor_of_isGrowing {e : Event C} (he : e.IsGrowing) : askedFor [e] = 0 := by
  rcases he with he | rfl | rfl
  · exact askedFor_of_isWork he
  · rfl
  · rfl

/-- **A pool at rest has one worker less than was asked for, for each signal that was sent**, and
signals are left only if no worker is. -/
theorem Accounted.atRest (ha : Accounted s h k) (hq : s.AtRest) (hf : s.adding = none) :
    s.size = k - s.sent ∧ s.pool.signals = s.sent - k := by
  have hd := ha.balanced.nodup_numbers
  have hleaving : s.pool.leaving = [] := by
    refine List.eq_nil_iff_forall_not_mem.2 fun j hj => ?_
    obtain ⟨t, hs, -⟩ := ha.exists_leave hj hf
    rw [hq (.leave j) trivial] at hs
    cases hs
  -- a worker that is left has nothing to finish, so it would take what is in the queue
  have hidle : s.pool.workers = [] ∨ s.pool.queue = [] := by
    refine Classical.or_iff_not_imp_left.2 fun hw => ?_
    obtain ⟨⟨j, a⟩, ws, hws⟩ := List.exists_cons_of_ne_nil hw
    have hm : ⟨j, a⟩ ∈ s.pool.workers := by simp [hws]
    have hj := (Pool.activity?_eq_some hd).2 hm
    cases a with
    | leaving =>
      rw [← Pool.mem_leaving, hleaving] at hm
      cases hm
    | serving c =>
      have := hq (.job (.finish j false)) trivial
      simp [step?, Pool.step?, hj] at this
    | idle =>
      rcases hqueue : s.pool.queue with _ | ⟨_ | _, jobs⟩
      · rfl
      all_goals
        have := hq (.job (.take j)) trivial
        simp [step?, Pool.step?, hj, hqueue] at this
  have hsize : s.size = s.pool.workers.length := by
    have hp := ha.roster.length_eq
    rwa [Accounted.unenrolled_of_free hf, List.append_nil, Pool.numbers, List.length_map] at hp
  have hnone : s.size = 0 ∨ s.pool.signals = 0 := by
    refine hidle.imp (fun hw => by rw [hsize, hw]; rfl) fun hqueue => ?_
    rw [Pool.signals, hqueue]
    rfl
  have hleft : h.dismissed.length = h.left.length := by
    simpa [hleaving] using ha.balanced.dismissed.length_eq
  have hsigs := ha.balanced.signals_eq
  have hadded := ha.balanced.added_eq
  have hasked := ha.asked
  have hsent := ha.signals
  simp only [due, hf, Option.map_none, Option.getD_none, Nat.add_zero] at hasked
  rw [Pool.size, ← hsize] at hadded
  omega

/-! ## Work -/

/-- What work leaves alone, and what it can only lower. -/
structure Worked (s t : SharedPool C) : Prop where
  adding : t.adding = s.adding
  removing : t.removing = s.removing
  removed : t.removed = s.removed
  capacity : t.pool.capacity = s.pool.capacity
  queue : t.pool.queue.length ≤ s.pool.queue.length

theorem Worked.refl (s : SharedPool C) : Worked s s := ⟨rfl, rfl, rfl, rfl, Nat.le_refl _⟩

theorem Worked.trans (hst : Worked s t) (htu : Worked t u) : Worked s u where
  adding := htu.adding.trans hst.adding
  removing := htu.removing.trans hst.removing
  removed := htu.removed.trans hst.removed
  capacity := htu.capacity.trans hst.capacity
  queue := Nat.le_trans htu.queue hst.queue

/-- A step of a worker lowers the load. -/
theorem Accounted.work {e : Event C} (ha : Accounted s h k) (he : e.IsWork)
    (hs : s.step? e = some t) : Worked s t ∧ t.pool.load < s.pool.load := by
  have hd := ha.balanced.nodup_numbers
  cases move_of_step? hs with
  | @job pe p hj hp =>
    have hm := Pool.move_of_step? hd hp
    have hload := hm.load_lt (by
      cases pe with
      | take j => exact .inl ⟨j, rfl⟩
      | finish j broken => exact .inr (.inl ⟨j, broken, rfl⟩)
      | _ => exact he.elim)
    exact ⟨⟨rfl, rfl, rfl, hm.capacity_eq, hload.1⟩, hload.2⟩
  | leave _ hp =>
    have hm := Pool.move_of_step? hd hp
    have hload := hm.load_lt (.inr (.inr ⟨_, rfl⟩))
    exact ⟨⟨rfl, rfl, rfl, hm.capacity_eq, hload.1⟩, hload.2⟩
  | _ => exact he.elim

theorem Accounted.worked (ha : Accounted s h k) (hr : Reaches Event.IsWork s t) : Worked s t := by
  induction hr with
  | refl => exact .refl s
  | tail hr hs ih =>
    obtain ⟨e, he, hs⟩ := hs
    obtain ⟨h', ha'⟩ := ha.reaches (fun _ => askedFor_of_isWork) hr
    exact ih.trans (ha'.work he hs).1

/-- Work comes to rest. -/
theorem Accounted.exists_atRest (ha : Accounted s h k) :
    ∃ t, Reaches Event.IsWork s t ∧ t.AtRest := by
  induction hn : s.pool.load using Nat.strongRecOn generalizing s h with
  | ind n ih =>
    by_cases hq : s.AtRest
    · exact ⟨s, .refl, hq⟩
    · unfold AtRest at hq
      push Not at hq
      obtain ⟨e, he, hs⟩ := hq
      obtain ⟨u, hs⟩ := Option.ne_none_iff_exists'.1 hs
      have hu := ha.step hs
      rw [askedFor_of_isWork he] at hu
      obtain ⟨t, hr, ht⟩ := ih _ (hn ▸ (ha.work he hs).2) hu rfl
      exact ⟨t, .head ⟨e, he, hs⟩ hr, ht⟩

/-! ## A call that removes workers -/

/-- The only call under way has `due` of its `n` signals still to send, in a pool that was without
jobs when the call began, and had given `removed`. -/
structure Sending (capacity n : Nat) (removed : List Nat) (due : Nat) (s : SharedPool C) :
    Prop where
  adding : s.adding = none
  removing : s.removing = [⟨due, n - due⟩]
  removed : s.removed = removed
  capacity : s.pool.capacity = capacity
  due_le : due ≤ n
  queue : s.pool.queue.length ≤ n - due

section
variable {capacity n due : Nat} {removed : List Nat}

theorem Sending.work (hs : Sending capacity n removed due s) (hw : Worked s t) :
    Sending capacity n removed due t where
  adding := hw.adding.trans hs.adding
  removing := hw.removing.trans hs.removing
  removed := hw.removed.trans hs.removed
  capacity := hw.capacity.trans hs.capacity
  due_le := hs.due_le
  queue := Nat.le_trans hw.queue hs.queue

theorem Sending.send (hs : Sending capacity n removed due s) (ht : s.step? (.send 0) = some t) :
    ∃ d, due = d + 1 ∧ Sending capacity n removed d t := by
  obtain ⟨adding, removing, rfl, rfl, due_le, queue⟩ := hs
  simp only [step?, removing, List.getElem?_cons_zero] at ht
  rcases due with _ | d
  · cases ht
  · obtain ⟨p, hp, rfl⟩ := Option.map_eq_some_iff.1 ht
    obtain ⟨-, rfl⟩ : s.pool.hasRoom = true ∧ _ := by simpa [Pool.step?] using hp
    refine ⟨d, rfl, adding, ?_, rfl, rfl, by omega, ?_⟩
    · simp only [List.set_cons_zero, List.cons.injEq, Removing.mk.injEq, and_true, true_and]
      omega
    · simp only [Pool.enqueue, List.length_append, List.length_singleton]
      omega

/-- There is room for a signal that is still to be sent. -/
theorem Sending.exists_send (hs : Sending capacity n removed (due + 1) s) (hn : n ≤ capacity) :
    ∃ t, s.step? (.send 0) = some t := by
  obtain ⟨adding, removing, rfl, rfl, due_le, queue⟩ := hs
  have hroom : s.pool.hasRoom = true := Pool.hasRoom_iff.2 (by omega)
  simp [step?, removing, Pool.step?, hroom]

/-- When all signals are sent, the call gives how many they are. -/
theorem Sending.last (hs : Sending capacity n removed due s)
    (ht : s.step? (.endRemoving 0) = some t) :
    due = 0 ∧ t.adding = none ∧ t.removing = [] ∧ t.removed = removed ++ [n] := by
  obtain ⟨adding, removing, rfl, rfl, due_le, queue⟩ := hs
  simp only [step?, removing, List.getElem?_cons_zero] at ht
  rcases due with _ | d
  · cases ht
    exact ⟨rfl, adding, rfl, rfl⟩
  · cases ht

theorem Sending.reaches (ha : Accounted s h k) (hs : Sending capacity n removed due s)
    (hr : Reaches Event.IsShrinking s t) : ∃ d, Sending capacity n removed d t := by
  induction hr with
  | refl => exact ⟨due, hs⟩
  | tail hr ht ih =>
    obtain ⟨h', ha'⟩ := ha.reaches (fun _ => askedFor_of_isShrinking) hr
    obtain ⟨d, hd⟩ := ih
    obtain ⟨e, he | rfl, ht⟩ := ht
    · exact ⟨d, hd.work (ha'.work he ht).1⟩
    · obtain ⟨d', -, hd'⟩ := hd.send ht
      exact ⟨d', hd'⟩

/-- A call that removes workers can always go on to its end, and the pool to rest. -/
theorem exists_settles_removing (ha : Accounted s h k) (hs : Sending capacity n removed due s)
    (hn : n ≤ capacity) : ∃ t, Settles Event.IsShrinking (.endRemoving 0) s t := by
  induction due generalizing s h with
  | zero =>
    have hlast : s.step? (.endRemoving 0) = some { s with
        removing := [], removed := s.removed ++ [n] } := by
      simp [step?, hs.removing]
    obtain ⟨t, hr, ht⟩ := (ha.step hlast).exists_atRest
    exact ⟨t, s, _, .refl, hlast, hr, ht⟩
  | succ due ih =>
    obtain ⟨u, hu⟩ := hs.exists_send hn
    obtain ⟨d, hd, hsend⟩ := hs.send hu
    cases hd
    obtain ⟨t, ht⟩ := ih (ha.step hu) hsend
    exact ⟨t, .of_reaches (.single ⟨_, .inr rfl, hu⟩) ht⟩

end

/-- Once such a call has ended and the pool is at rest, all signals count. -/
theorem remove_of_settles {capacity n due : Nat} {removed : List Nat} (ha : Accounted s h k)
    (hs : Sending capacity n removed due s)
    (ht : Settles Event.IsShrinking (.endRemoving 0) s t) :
    (∃ h', Accounted t h' k) ∧ t.adding = none ∧ t.removing = [] ∧ t.removed = removed ++ [n] ∧
      t.size = k - (removed.sum + n) ∧ t.pool.signals = removed.sum + n - k := by
  obtain ⟨u, v, hu, hv, ht, hq⟩ := ht
  obtain ⟨h₁, ha₁⟩ := ha.reaches (fun _ => askedFor_of_isShrinking) hu
  obtain ⟨d, hd⟩ := hs.reaches ha hu
  obtain ⟨-, hadding, hremoving, hremoved⟩ := hd.last hv
  have ha₂ : Accounted v _ k := ha₁.step hv
  have hw := ha₂.worked ht
  have ht' := ha₂.reaches (fun _ => askedFor_of_isWork) ht
  obtain ⟨h₃, ha₃⟩ := id ht'
  have hsent : t.sent = removed.sum + n := by
    simp [sent, hw.removing, hw.removed, hremoving, hremoved]
  rw [← hsent]
  exact ⟨ht', hw.adding.trans hadding, hw.removing.trans hremoving, hw.removed.trans hremoved,
    ha₃.atRest hq (hw.adding.trans hadding)⟩

/-! ## A call that adds workers -/

/-- A call that adds workers can always go on to its end, and the pool to rest. -/
theorem exists_settles_adding {a : Adding} (ha : Accounted s h k) (hs : s.adding = some a) :
    ∃ t, Settles Event.IsGrowing .endAdding s t := by
  -- a worker that has been started and is not enrolled yet is half done
  induction hn : 2 * a.due + a.started.toList.length generalizing s h a with
  | zero =>
    obtain ⟨due, _ | worker⟩ := a
    · obtain rfl : due = 0 := by simpa using hn
      have hlast : s.step? .endAdding = some { s with adding := none } := by simp [step?, hs]
      obtain ⟨t, hr, ht⟩ := (ha.step hlast).exists_atRest
      exact ⟨t, s, _, .refl, hlast, hr, ht⟩
    · simp at hn
  | succ n ih =>
    obtain ⟨due, _ | worker⟩ := a
    · obtain ⟨due, rfl⟩ : ∃ d, due = d + 1 :=
        Nat.exists_eq_succ_of_ne_zero (by rintro rfl; cases hn)
      have hu : s.step? .start = some { s with
          pool := s.pool.enrol 1, adding := some ⟨due, some s.pool.nextNumber⟩ } := by
        simp [step?, hs, Pool.step?]
      obtain ⟨t, ht⟩ := ih (ha.step hu) rfl (by simp at hn ⊢; omega)
      exact ⟨t, .of_reaches (.single ⟨_, .inr (.inl rfl), hu⟩) ht⟩
    · have hu : s.step? .enrol = some { s with
          roster := s.roster ++ [worker], adding := some ⟨due, none⟩ } := by
        simp [step?, hs]
      obtain ⟨t, ht⟩ := ih (ha.step hu) rfl (by simp at hn ⊢; omega)
      exact ⟨t, .of_reaches (.single ⟨_, .inr (.inr rfl), hu⟩) ht⟩

/-- A call that adds workers does nothing to those that remove them, and goes on till it ends. -/
theorem Accounted.growing (ha : Accounted s h k) (hs : s.adding.isSome)
    (hr : Reaches Event.IsGrowing s t) :
    t.adding.isSome ∧ t.removing = s.removing ∧ t.removed = s.removed := by
  induction hr with
  | refl => exact ⟨hs, rfl, rfl⟩
  | tail hr ht ih =>
    obtain ⟨h', ha'⟩ := ha.reaches (fun _ => askedFor_of_isGrowing) hr
    obtain ⟨e, he | rfl | rfl, ht⟩ := ht
    · have hw := (ha'.work he ht).1
      exact ⟨hw.adding ▸ ih.1, hw.removing.trans ih.2.1, hw.removed.trans ih.2.2⟩
    all_goals
      cases move_of_step? ht
      exact ⟨rfl, ih.2⟩

/-- Nothing is lost while workers are added. -/
theorem add_of_settles (ha : Accounted s h k) (hs : s.adding.isSome)
    (ht : Settles Event.IsGrowing .endAdding s t) :
    t.size = k - s.sent ∧ t.pool.signals = s.sent - k := by
  obtain ⟨u, v, hu, hv, ht, hq⟩ := ht
  obtain ⟨h₁, ha₁⟩ := ha.reaches (fun _ => askedFor_of_isGrowing) hu
  obtain ⟨-, hremoving, hremoved⟩ := ha.growing hs hu
  have ha₂ := ha₁.step hv
  have hw := ha₂.worked ht
  obtain ⟨h₃, ha₃⟩ := ha₂.reaches (fun _ => askedFor_of_isWork) ht
  cases move_of_step? hv
  have hsent : t.sent = s.sent := by
    simp only [sent, hw.removing, hw.removed, hremoving, hremoved]
  rw [← hsent]
  exact ha₃.atRest hq hw.adding

/-! ## The result -/

/-- **Signals that find no worker wait for later ones.** A pool at rest, with no calls under way and
no jobs, shrinks by a call that sends `n` signals, for which there is room, and then grows by `m`
workers, and each time comes to rest. However calls and workers take turns, neither call gets stuck;
after the first one there is one worker less for each signal, as long as there are any, and the
other signals wait; after the second one so many of the new workers have left as signals had
waited, so that there are `m` more than there were, less `n`, or none. -/
theorem surplus_signals_wait {capacity n m : Nat} {es : List (Event C)}
    (hr : (empty capacity).run? es = some s) (rest : s.AtRest) (hadding : s.adding = none)
    (hremoving : s.removing = []) (hqueue : s.pool.queue = []) (room : n ≤ max capacity 1) :
    ∃ r, s.step? (.beginRemoving n) = some r ∧
      (∀ v, Reaches Event.IsShrinking r v → ∃ t, Settles Event.IsShrinking (.endRemoving 0) v t) ∧
      ∀ t, Settles Event.IsShrinking (.endRemoving 0) r t →
        t.size = s.size - n ∧ t.pool.signals = n - s.size ∧ t.removed = s.removed ++ [n] ∧
        ∃ r', t.step? (.beginAdding m) = some r' ∧
          (∀ v, Reaches Event.IsGrowing r' v → ∃ u, Settles Event.IsGrowing .endAdding v u) ∧
          ∀ u, Settles Event.IsGrowing .endAdding r' u →
            u.size = s.size + m - n ∧ u.pool.signals = n - (s.size + m) := by
  have ha : Accounted s _ (0 + askedFor es) := (Accounted.empty capacity).run hr
  rw [Nat.zero_add] at ha
  have hcapacity : s.pool.capacity = max capacity 1 :=
    (Pool.Balanced.empty capacity).capacity_eq_of_run (pool_of_run hr)
  -- what was asked for is here or was sent away
  have hasked : askedFor es = s.size + s.removed.sum := by
    obtain ⟨hsize, hsignals⟩ := ha.atRest rest hadding
    rw [Pool.signals, hqueue] at hsignals
    simp only [sent, hremoving, List.map_nil, List.sum_nil, List.countP_nil] at hsize hsignals
    omega
  have hbegin : s.step? (.beginRemoving n) = some { s with removing := [⟨n, 0⟩] } := by
    simp [step?, hremoving]
  have har : Accounted _ _ (askedFor es) := ha.step hbegin
  have hsend : Sending (max capacity 1) n s.removed n { s with removing := [⟨n, 0⟩] } :=
    ⟨hadding, by simp, rfl, hcapacity, Nat.le_refl n, by simp [hqueue]⟩
  refine ⟨_, hbegin, fun v hv => ?_, fun t ht => ?_⟩
  · obtain ⟨h₁, ha₁⟩ := har.reaches (fun _ => askedFor_of_isShrinking) hv
    obtain ⟨d, hd⟩ := hsend.reaches har hv
    exact exists_settles_removing ha₁ hd room
  obtain ⟨⟨h₁, ha₁⟩, hadding₁, hremoving₁, hremoved₁, hsize₁, hsignals₁⟩ :=
    remove_of_settles har hsend ht
  have hadd : t.step? (.beginAdding m) = some { t with adding := some ⟨m, none⟩ } := by
    simp [step?, hadding₁]
  have ha₂ : Accounted _ _ (askedFor es + m) := ha₁.step hadd
  refine ⟨by omega, by omega, hremoved₁, _, hadd, fun v hv => ?_, fun u hu => ?_⟩
  · obtain ⟨h₃, ha₃⟩ := ha₂.reaches (fun _ => askedFor_of_isGrowing) hv
    obtain ⟨a, hv'⟩ := Option.isSome_iff_exists.1 (ha₂.growing rfl hv).1
    exact exists_settles_adding ha₃ hv'
  · obtain ⟨hsize₂, hsignals₂⟩ := add_of_settles ha₂ rfl hu
    simp only [sent, hremoving₁, hremoved₁, List.sum_append, List.map_nil, List.sum_nil,
      List.sum_singleton] at hsize₂ hsignals₂
    omega

/-- Three signals for one worker: the first makes it leave, the others wait for the two that are
added next, and nobody is left. -/
theorem surplus_signals_wait_run :
    let es : List (Event String) := [.beginAdding 1, .start, .enrol, .endAdding]
    ∃ s r, (empty 16).run? es = some s ∧ s.size = 1 ∧ s.step? (.beginRemoving 3) = some r ∧
      ∃ t, Settles Event.IsShrinking (.endRemoving 0) r t ∧ t.size = 0 ∧ t.pool.signals = 2 ∧
        ∃ r' u, t.step? (.beginAdding 2) = some r' ∧ Settles Event.IsGrowing .endAdding r' u ∧
          u.size = 0 ∧ u.pool.signals = 0 := by
  intro es
  let s : SharedPool String :=
    { pool := { capacity := 16, workers := [⟨0, .idle⟩], nextNumber := 1 }, roster := [0] }
  have hr : (empty 16).run? es = some s := rfl
  have rest : s.AtRest := atRest_of_idle (by simp [s]) (.inr rfl)
  obtain ⟨r, hbegin, hsettles, hall⟩ :=
    surplus_signals_wait (n := 3) (m := 2) hr rest rfl rfl rfl (by decide)
  obtain ⟨t, ht⟩ := hsettles r .refl
  obtain ⟨hsize, hsignals, -, r', hadd, hsettles', hall'⟩ := hall t ht
  obtain ⟨u, hu⟩ := hsettles' r' .refl
  exact ⟨s, r, hr, rfl, hbegin, t, ht, hsize, hsignals, r', u, hadd, hu, hall' u hu⟩

/-- One worker, asked to leave three times over; the two that are enrolled later leave as well,
where they would stay if only workers that were present left. -/
theorem later_workers_leave :
    let es : List (Event String) := [.beginAdding 1, .start, .enrol, .endAdding]
    ∃ s r t r' u, (empty 16).run? es = some s ∧ s.AtRest ∧ s.pool.queue = [] ∧ s.size = 1 ∧
      s.step? (.beginRemoving 3) = some r ∧ Settles Event.IsShrinking (.endRemoving 0) r t ∧
      t.step? (.beginAdding 2) = some r' ∧ Settles Event.IsGrowing .endAdding r' u ∧
      u.size = 0 ∧ (s.size - 3) + 2 = 2 := by
  intro es
  let s : SharedPool String :=
    { pool := { capacity := 16, workers := [⟨0, .idle⟩], nextNumber := 1 }, roster := [0] }
  let t : SharedPool String :=
    { pool := { capacity := 16, queue := [.exit, .exit], nextNumber := 1 }, removed := [3] }
  let u : SharedPool String :=
    { pool := { capacity := 16, nextNumber := 3 }, removed := [3] }
  have hshrink : Settles Event.IsShrinking (.endRemoving 0) { s with removing := [⟨3, 0⟩] } t :=
    ⟨_, _, reaches_of_run [.send 0, .job (.take 0), .send 0, .leave 0, .send 0]
      (by simp [Event.IsShrinking, Event.IsWork]) rfl, rfl, .refl, atRest_of_idle nofun (.inl rfl)⟩
  have hgrow : Settles Event.IsGrowing .endAdding { t with adding := some ⟨2, none⟩ } u :=
    ⟨_, _, reaches_of_run [.start, .job (.take 1), .enrol, .start, .enrol]
      (by simp [Event.IsGrowing, Event.IsWork]) rfl, rfl,
      reaches_of_run [.leave 1, .job (.take 2), .leave 2] (by simp [Event.IsWork]) rfl,
      atRest_of_idle nofun (.inl rfl)⟩
  exact ⟨s, _, t, _, u, rfl, atRest_of_idle (by simp [s]) (.inr rfl), rfl, rfl, rfl, hshrink, rfl,
    hgrow, rfl, rfl⟩

end SharedPool
end PacketRpc
