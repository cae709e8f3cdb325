import PacketRpc.Codec.Flags
import PacketRpc.Codec.Scalar
import PacketRpc.Proofs.Codec.Ordinals
import PacketRpc.Proofs.Wire.RoundTrip

/-!
# Writes only append

An effect is what comes of a write in an empty writer: its outcome, and the bytes that stand there,
whatever the outcome is. Effects follow one another as writes do, the second only where the first
has succeeded (`Effect.andThen`).

`AppendOnly w`: in every writer, `w` has its effect behind what is there. Sequencing keeps this, on
success and on failure (`AppendOnly.bind`), and the effect of a sequence is that of its parts in
turn (`AppendOnly.effect_bind`). So every write of the codec only appends, and a sequence of two
lists one after the other differs from the two sequences in its length only
(`AppendOnly.effect_sequence`, `AppendOnly.effect_sequence_append`).
-/

namespace PacketRpc

variable {α : Type}

/-- A step for each element of two lists, one after the other. -/
theorem Step.forEach_append {σ : Type} (f : α → Step σ Unit) (as bs : List α) :
    forEach f (as ++ bs) = forEach f as >>= fun _ => forEach f bs := by
  induction as with
  | nil => rfl
  | cons a as ih => rw [List.cons_append, forEach, forEach, ih, bind_assoc]

/-- What comes of a write: its outcome, and the bytes that it adds, whatever the outcome. -/
@[ext]
structure Effect where
  outcome : Except ProtocolError Unit
  added : List UInt8

/-- One effect after another; an error is the end. -/
def Effect.andThen (x y : Effect) : Effect :=
  match x.outcome with
  | .ok _ => ⟨y.outcome, x.added ++ y.added⟩
  | .error _ => x

/-- What an effect means in a writer: its outcome, and its bytes behind what is there. -/
def Effect.behind (x : Effect) (s : Writer) : Except ProtocolError Unit × Writer :=
  (x.outcome, s.append x.added)

/-- What comes of a write in an empty writer. -/
def Effect.of (w : Write) : Effect := ⟨(w .empty).1, (w .empty).2.toList⟩

/-- In every writer, the write has the effect that it has in an empty one, behind what is there. -/
def AppendOnly (w : Write) : Prop := ∀ s, w s = (Effect.of w).behind s

namespace AppendOnly

variable {w v : Write} {x : Effect}

theorem effect_eq (h : ∀ s, w s = x.behind s) : Effect.of w = x := by
  ext1
  · rw [Effect.of, h, Effect.behind]
  · rw [Effect.of, h, Effect.behind, Writer.toList_append, Writer.toList_empty, List.nil_append]

/-- A write with one effect in all writers only appends. -/
theorem of_effect (h : ∀ s, w s = x.behind s) : AppendOnly w := by
  rwa [AppendOnly, effect_eq h]

/-- What has been written before is still there, in front. -/
theorem keeps_before (h : AppendOnly w) (s : Writer) : s.toList <+: (w s).2.toList := by
  rw [h s, Effect.behind, Writer.toList_append]
  exact List.prefix_append _ _

theorem done : AppendOnly (pure ()) :=
  of_effect (x := ⟨.ok (), []⟩) fun s => by rw [Effect.behind, Writer.append_nil, Step.pure_apply]

theorem fail (e : ProtocolError) : AppendOnly (Step.fail e) :=
  of_effect (x := ⟨.error e, []⟩) fun s => by rw [Effect.behind, Writer.append_nil, Step.fail]

theorem bytes (bs : List UInt8) : AppendOnly (Write.bytes bs) :=
  of_effect (x := ⟨.ok (), bs⟩) fun _ => rfl

/-! ## Sequencing -/

theorem bind_apply (h : AppendOnly w) (k : AppendOnly v) (s : Writer) :
    (w >>= fun _ => v) s = ((Effect.of w).andThen (Effect.of v)).behind s := by
  rw [Step.bind_apply, h s, Effect.andThen]
  rcases hw : (Effect.of w).outcome with e | u
  · simp only [Effect.behind, hw]
  · simp only [Effect.behind, hw, k (s.append (Effect.of w).added), Writer.append_append]

theorem bind (h : AppendOnly w) (k : AppendOnly v) : AppendOnly (w >>= fun _ => v) :=
  of_effect (h.bind_apply k)

theorem effect_bind (h : AppendOnly w) (k : AppendOnly v) :
    Effect.of (w >>= fun _ => v) = (Effect.of w).andThen (Effect.of v) :=
  effect_eq (h.bind_apply k)

theorem forEach {f : α → Write} (h : ∀ a, AppendOnly (f a)) (as : List α) :
    AppendOnly (Step.forEach f as) := by
  induction as with
  | nil => exact done
  | cons a as ih => exact (h a).bind ih

/-! ## The codec -/

theorem length (n : Nat) : AppendOnly (Write.length n) := by
  unfold Write.length
  split
  · exact bytes _
  · split
    · exact bytes _
    · exact fail _

theorem text (s : String) : AppendOnly (Write.text s) := (length s.utf8ByteSize).bind (bytes _)

theorem flags (bs : List Bool) : AppendOnly (Write.flags bs) := (length bs.length).bind (bytes _)

theorem member [Enumerated α] (a : α) : AppendOnly (Enumerated.write a) := by
  rw [Enumerated.write_eq_word]
  exact bytes _

section
variable {f : α → Write} (h : ∀ a, AppendOnly (f a))
include h

theorem sequence (as : List α) : AppendOnly (Write.sequence f as) :=
  (length as.length).bind (forEach h as)

/-- A sequence is its length and then its elements. -/
theorem effect_sequence (as : List α) : Effect.of (Write.sequence f as) =
    (Effect.of (Write.length as.length)).andThen (Effect.of (Step.forEach f as)) :=
  (length as.length).effect_bind (forEach h as)

/-- The elements of two lists, one after the other. -/
theorem effect_forEach_append (as bs : List α) : Effect.of (Step.forEach f (as ++ bs)) =
    (Effect.of (Step.forEach f as)).andThen (Effect.of (Step.forEach f bs)) := by
  rw [Step.forEach_append]
  exact (forEach h as).effect_bind (forEach h bs)

/-- A sequence of two lists, one after the other, has a length of its own; the elements are those of
the two sequences. -/
theorem effect_sequence_append (as bs : List α) : Effect.of (Write.sequence f (as ++ bs)) =
    (Effect.of (Write.length (as.length + bs.length))).andThen
      ((Effect.of (Step.forEach f as)).andThen (Effect.of (Step.forEach f bs))) := by
  rw [effect_sequence h, effect_forEach_append h, List.length_append]

end
end AppendOnly

/-- Values of a scalar kind are only appended, single and in sequence. -/
def AppendsScalars (α : Type) [Scalar α] : Prop :=
  ∀ (a : α) (as : List α), AppendOnly (Write.scalar a) ∧ AppendOnly (Write.scalars as)

theorem appendsScalars_of [Scalar α] (h : ∀ a : α, AppendOnly (Write.scalar a)) :
    AppendsScalars α :=
  fun a as => ⟨h a, .sequence h as⟩

/-- Sequences of elements that `f` writes: each is its length and then its elements, and that of two
lists, one after the other, has the elements of both behind a length of its own. -/
def Concatenates (f : α → Write) (sequence : List α → Write) : Prop :=
  ∀ as bs, Effect.of (sequence as) =
      (Effect.of (Write.length as.length)).andThen (Effect.of (Step.forEach f as)) ∧
    Effect.of (sequence (as ++ bs)) = (Effect.of (Write.length (as.length + bs.length))).andThen
      ((Effect.of (Step.forEach f as)).andThen (Effect.of (Step.forEach f bs)))

theorem concatenates_sequence {f : α → Write} (h : ∀ a, AppendOnly (f a)) :
    Concatenates f (Write.sequence f) :=
  fun as bs => ⟨AppendOnly.effect_sequence h as, AppendOnly.effect_sequence_append h as bs⟩

end PacketRpc
