import Mathlib.Logic.Relation
import Mathlib.Tactic.Choose
import PacketRpc.Proofs.Wire.Outcome

/-!
# Recursive reads, one step at a time

What a read does next, an elementary read or a call of the read that it leaves open, depends on what
it has read so far: this is its course (`Course`, `Composed.exists_course`). Where every call
follows the same course again, a machine with a stack carries out the recursion (`Machine.next?`).
Nothing bounds the steps that it takes or the height of its stack.

A read descends by `size` (`Descends`) if it follows its course, with itself for the calls, and
every call begins at least `size` bytes behind the beginning of the call around it. That is so
wherever the read does not depend on what it is given for calls elsewhere
(`Remains.holds_at_call`). Then

* the machine ends, with the outcome of the read (`Descends.reaches_end`), by induction on the bytes
  that remain and, within a call, on its course;
* wherever it is on the way, the reader stands behind the bytes that it has passed, which are at
  least `size` for every call on the stack (`Descends.bounds_of_reaches`). What a step keeps is
  `Valid`: each call on the stack has come as far as it says from where it began.
-/

namespace PacketRpc

variable {α β γ : Type}

/-- What a read does, step by step. -/
inductive Course (γ α : Type)
  /-- It ends with a value or an error. -/
  | ended (o : Except ProtocolError α)
  /-- It takes the next bytes. -/
  | bytes (n : Nat) (next : List UInt8 → Course γ α)
  /-- It calls the read that has been left open. -/
  | call (next : γ → Course γ α)

namespace Course

/-- Goes on with a value; an error is the end. -/
def after (o : Except ProtocolError β) (next : β → Course γ α) : Course γ α :=
  match o with
  | .ok b => next b
  | .error e => .ended (.error e)

/-- The read that follows a course, with `f` for the calls. -/
def run (f : Read γ) : Course γ α → Read α
  | .ended o => fun s => (o, s)
  | .bytes n next => Read.bytes n >>= fun bs => (next bs).run f
  | .call next => f >>= fun a => (next a).run f

/-- One course and then another. -/
def bind : Course γ α → (α → Course γ β) → Course γ β
  | .ended o, k => after o k
  | .bytes n next, k => .bytes n fun bs => (next bs).bind k
  | .call next, k => .call fun a => (next a).bind k

variable {f : Read γ}

theorem bind_run_apply (x : Read β) (next : β → Course γ α) (s : Reader) :
    (x >>= fun b => (next b).run f) s = (after (x s).1 next).run f (x s).2 := by
  rcases hx : x s with ⟨e | b, t⟩
  · rw [Step.bind_of_error hx]
    rfl
  · rw [Step.bind_of_ok hx]
    rfl

theorem run_bytes (n : Nat) (next : List UInt8 → Course γ α) (s : Reader) :
    (bytes n next).run f s = (after (Read.bytes n s).1 next).run f (Read.bytes n s).2 :=
  bind_run_apply _ _ _

theorem run_call (next : γ → Course γ α) (s : Reader) :
    (call next).run f s = (after (f s).1 next).run f (f s).2 :=
  bind_run_apply _ _ _

theorem run_bind (c : Course γ α) (k : α → Course γ β) :
    (c.bind k).run f = c.run f >>= fun a => (k a).run f := by
  induction c with
  | ended o =>
    funext s
    rw [bind_run_apply]
    rfl
  | bytes n next ih =>
    simp only [bind, run, ih]
    exact (Step.bind_assoc _ _ _).symm
  | call next ih =>
    simp only [bind, run, ih]
    exact (Step.bind_assoc _ _ _).symm

end Course

/-- A composed read follows a course, the same for all reads that are left open in it. -/
theorem Composed.exists_course {x : Read γ → Read α} (h : Composed x) :
    ∃ c : Course γ α, ∀ f, c.run f = x f := by
  induction h with
  | done a => exact ⟨.ended (.ok a), fun _ => rfl⟩
  | @fail _ e _ => exact ⟨.ended (.error e), fun _ => rfl⟩
  | bytes n => exact ⟨.bytes n fun bs => .ended (.ok bs), fun _ => Step.bind_pure _⟩
  | given => exact ⟨.call fun a => .ended (.ok a), fun _ => Step.bind_pure _⟩
  | bind _ _ ihx ihk =>
    obtain ⟨c, hc⟩ := ihx
    choose k hk using ihk
    refine ⟨c.bind k, fun f => ?_⟩
    rw [Course.run_bind, hc]
    simp only [hk]

/-! ## Within a call -/

theorem Regular.spans_apply {x : Read α} (h : Regular x) (s : Reader) : ∃ bs, s.Spans bs (x s).2 :=
  h.spans (s := s) rfl

theorem Reader.exists_spans_trans {s t u : Reader} :
    (∃ bs, s.Spans bs t) → (∃ bs, t.Spans bs u) → ∃ bs, s.Spans bs u
  | ⟨bs, hb⟩, ⟨cs, hc⟩ => ⟨bs ++ cs, hb.trans hc⟩

/-- Following the course `c` from `s`, with `f` for the calls, leads to `t`, where `c'` is what
remains of it. -/
inductive Remains (f : Read γ) (c : Course γ α) (s : Reader) : Course γ α → Reader → Prop
  | refl : Remains f c s c s
  | bytes {n : Nat} {next : List UInt8 → Course γ α} {t : Reader} :
    Remains f c s (.bytes n next) t →
      Remains f c s (.after (Read.bytes n t).1 next) (Read.bytes n t).2
  | call {next : γ → Course γ α} {t : Reader} :
    Remains f c s (.call next) t → Remains f c s (.after (f t).1 next) (f t).2

/-- `f` where `P` holds, and an error elsewhere. -/
def Read.onlyWhere (P : Reader → Prop) [DecidablePred P] (e : ProtocolError) (f : Read γ) :
    Read γ := fun s => if P s then f s else (.error e, s)

namespace Remains

variable {f : Read γ} {c c' : Course γ α} {s t : Reader}

theorem run_eq (h : Remains f c s c' t) : c.run f s = c'.run f t := by
  induction h with
  | refl => rfl
  | bytes _ ih => rw [ih, Course.run_bytes]
  | call _ ih => rw [ih, Course.run_call]

theorem spans (hf : Regular f) (h : Remains f c s c' t) : ∃ bs, s.Spans bs t := by
  induction h with
  | refl => exact ⟨[], .refl s⟩
  | bytes _ ih => exact Reader.exists_spans_trans ih ((Regular.bytes _).spans_apply _)
  | call _ ih => exact Reader.exists_spans_trans ih (hf.spans_apply _)

section
variable {P : Reader → Prop} [DecidablePred P]
  (hc : ∀ e, c.run (f.onlyWhere P e) s = c.run f s)
include hc

/-- A call that comes next would give itself away, by two different errors, if `P` did not hold. -/
theorem holds_of_call {next : γ → Course γ α}
    (ht : ∀ e, c.run (f.onlyWhere P e) s = (Course.call next).run (f.onlyWhere P e) t) : P t := by
  apply Classical.byContradiction
  intro hp
  have key (e : ProtocolError) : c.run f s = (.error e, t) := by
    have hstop : f.onlyWhere P e t = (.error e, t) := if_neg hp
    rw [← hc, ht, Course.run_call, hstop]
    rfl
  cases (key .nullPacket).symm.trans (key .invalidText)

theorem run_onlyWhere (h : Remains f c s c' t) (e : ProtocolError) :
    c.run (f.onlyWhere P e) s = c'.run (f.onlyWhere P e) t := by
  induction h generalizing e with
  | refl => rfl
  | bytes _ ih => rw [ih, Course.run_bytes]
  | @call next t _ ih =>
    have hf : f.onlyWhere P e t = f t := if_pos (holds_of_call hc ih)
    rw [ih, Course.run_call, hf]

/-- **Calls come only where they count**: where `P` holds, if what `c` leads to does not depend on
what is given for calls elsewhere. -/
theorem holds_at_call {next : γ → Course γ α} (h : Remains f c s (.call next) t) : P t :=
  holds_of_call hc (h.run_onlyWhere hc)

end
end Remains

/-! ## The machine -/

/-- A machine that carries out a recursion: what remains of the call that it is in, what is to be
done with the outcomes of this call and of those around it, the innermost first, and the reader. -/
structure Machine (α : Type) where
  course : Course α α
  around : List (α → Course α α)
  reader : Reader

namespace Machine

/-- The next step, if it has not ended. A call puts what is to follow it on the stack; its outcome
goes to what stands there, and errors go on to the calls around. -/
def next? (whole : Course α α) : Machine α → Option (Machine α)
  | ⟨.bytes n next, around, s⟩ =>
    some ⟨.after (Read.bytes n s).1 next, around, (Read.bytes n s).2⟩
  | ⟨.call next, around, s⟩ => some ⟨whole, next :: around, s⟩
  | ⟨.ended o, next :: around, s⟩ => some ⟨.after o next, around, s⟩
  | ⟨.ended _, [], _⟩ => none

/-- `Reaches whole x y`: from `x` the machine comes to `y`. -/
abbrev Reaches (whole : Course α α) : Machine α → Machine α → Prop :=
  Relation.ReflTransGen fun x y => x.next? whole = some y

/-- There is one run only. -/
theorem reaches_or_reaches {whole : Course α α} {x y z : Machine α} (hy : Reaches whole x y)
    (hz : Reaches whole x z) : Reaches whole y z ∨ Reaches whole z y :=
  hy.total_of_right_unique (fun _ _ _ h k => Option.some.inj (h.symm.trans k)) hz

/-- No step goes back. -/
theorem position_le_of_next {whole : Course α α} {x y : Machine α} (h : x.next? whole = some y) :
    x.reader.position ≤ y.reader.position := by
  obtain ⟨c, around, s⟩ := x
  match c, around with
  | .bytes n next, around =>
    cases h
    obtain ⟨bs, hb⟩ := (Regular.bytes n).spans_apply s
    exact Nat.le_of_add_right_le (Nat.le_of_eq hb.position.symm)
  | .call next, around => cases h; exact Nat.le_refl _
  | .ended o, next :: around => cases h; exact Nat.le_refl _
  | .ended o, [] => cases h

end Machine

/-! ## Descending reads -/

/-- `f` follows the course `whole`, with itself for the calls, and each call begins at least `size`
bytes behind the beginning of the call around it. -/
structure Descends (f : Read α) (whole : Course α α) (size : Nat) : Prop where
  size_pos : 0 < size
  regular : Regular f
  run_eq : whole.run f = f
  late : ∀ {s t : Reader} {next : α → Course α α}, Remains f whole s (.call next) t →
    t.remaining + size ≤ s.remaining

/-- The calls on the stack of a machine that has begun at `start`: the innermost has begun at `s`,
and each of those around it has come to the call that it is waiting for. -/
inductive Open (f : Read α) (whole : Course α α) (start : Reader) :
    Reader → List (α → Course α α) → Prop
  | outermost : Open f whole start start []
  | inner {s t : Reader} {next : α → Course α α} {around : List (α → Course α α)} :
    Open f whole start s around → Remains f whole s (.call next) t →
      Open f whole start t (next :: around)

/-- The machine is where following the course leads to in each of the calls on its stack. -/
def Machine.Valid (f : Read α) (whole : Course α α) (start : Reader) (x : Machine α) : Prop :=
  ∃ s, Open f whole start s x.around ∧ Remains f whole s x.course x.reader

namespace Descends

open Machine (Reaches)

variable {f : Read α} {whole : Course α α} {size : Nat} (h : Descends f whole size)
include h

/-! ### The end of the descent -/

/-- **The machine ends every call** with its outcome, whatever stands on the stack below it. -/
theorem reaches_end (s : Reader) (around : List (α → Course α α)) :
    Reaches whole ⟨whole, around, s⟩ ⟨.ended (f s).1, around, (f s).2⟩ := by
  induction hn : s.remaining using Nat.strongRecOn generalizing s around with
  | ind n ih =>
    -- the calls are settled by `ih`, so what remains of this one ends by induction on the course
    suffices hall : ∀ c t, Remains f whole s c t →
        Reaches whole ⟨c, around, t⟩ ⟨.ended (c.run f t).1, around, (c.run f t).2⟩ by
      have hwhole := hall whole s .refl
      rwa [h.run_eq] at hwhole
    intro c
    induction c with
    | ended o => exact fun t _ => .refl
    | bytes m next ihc =>
      intro t ht
      refine .head rfl ?_
      rw [Course.run_bytes]
      have hu := ht.bytes
      revert hu
      rcases Read.bytes m t with ⟨e | bs, u⟩
      · exact fun _ => .refl
      · exact ihc bs u
    | call next ihc =>
      intro t ht
      have hlt : t.remaining < n := by
        have hlate := h.late ht
        have hpos := h.size_pos
        omega
      refine .head rfl ((ih t.remaining hlt t (next :: around) rfl).trans (.head rfl ?_))
      rw [Course.run_call]
      have hu := ht.call
      revert hu
      rcases f t with ⟨e | a, u⟩
      · exact fun _ => .refl
      · exact ihc a u

/-! ### On the way -/

variable {start : Reader}

theorem spans_of_open {s : Reader} {around : List (α → Course α α)}
    (ho : Open f whole start s around) : ∃ bs, start.Spans bs s := by
  induction ho with
  | outermost => exact ⟨[], .refl start⟩
  | inner _ hr ih => exact Reader.exists_spans_trans ih (hr.spans h.regular)

/-- Each call on the stack has passed `size` bytes before the next of them began. -/
theorem depth_of_open {s : Reader} {around : List (α → Course α α)}
    (ho : Open f whole start s around) : size * around.length + s.remaining ≤ start.remaining := by
  induction ho with
  | outermost => simp
  | inner _ hr ih =>
    have hlate := h.late hr
    rw [List.length_cons, Nat.mul_succ]
    omega

theorem valid_next {x y : Machine α} (hv : x.Valid f whole start) (hs : x.next? whole = some y) :
    y.Valid f whole start := by
  obtain ⟨c, around, t⟩ := x
  obtain ⟨s, ho, hr⟩ := hv
  match c, around with
  | .bytes n next, around =>
    cases hs
    exact ⟨s, ho, hr.bytes⟩
  | .call next, around =>
    cases hs
    exact ⟨t, ho.inner hr, .refl⟩
  | .ended o, next :: around =>
    cases hs
    cases ho with
    | @inner s' _ _ _ ho hcall =>
      -- the call that ends here is the one that is waited for, so its outcome is that of `f`
      have hf : f s = (o, t) := by
        rw [← h.run_eq, hr.run_eq]
        rfl
      have hafter := hcall.call
      rw [hf] at hafter
      exact ⟨s', ho, hafter⟩
  | .ended o, [] => cases hs

theorem valid_of_reaches {x : Machine α} (hx : Reaches whole ⟨whole, [], start⟩ x) :
    x.Valid f whole start := by
  induction hx with
  | refl => exact ⟨start, .outermost, .refl⟩
  | tail _ hs ih => exact h.valid_next ih hs

/-- **The bytes passed are enough for the stack**, wherever the machine is. -/
theorem bounds_of_reaches {x : Machine α} (hx : Reaches whole ⟨whole, [], start⟩ x) :
    ∃ bs, start.Spans bs x.reader ∧ size * x.around.length ≤ bs.length := by
  obtain ⟨s, ho, hr⟩ := h.valid_of_reaches hx
  obtain ⟨bs, hb⟩ := Reader.exists_spans_trans (h.spans_of_open ho) (hr.spans h.regular)
  refine ⟨bs, hb, ?_⟩
  obtain ⟨cs, hc⟩ := hr.spans h.regular
  have hdepth := h.depth_of_open ho
  have htotal := hb.remaining_eq
  have hwithin := hc.remaining_le
  omega

end Descends
end PacketRpc
