import PacketRpc.Codec.Flags
import PacketRpc.Codec.Scalar
import PacketRpc.Proofs.Codec.Ordinals

/-!
# When writing fails

The only thing that cannot be written is a sequence that is too long for its length.
`Measured w ls`: the lengths that `w` writes are `ls`, in that order, and it fails at the first of
them that is too long, if there is one (`verdict`).
-/

namespace PacketRpc

variable {α : Type}

/-- What comes of writing lengths in turn: the first that is too long is an error. -/
def verdict (lengths : List Nat) : Except ProtocolError Unit :=
  match lengths.find? (maxLength < ·) with
  | some n => .error (.lengthOverflow n)
  | none => .ok ()

/-- The write succeeds or fails as the writing of these lengths does. -/
def Measured (w : Write) (lengths : List Nat) : Prop := ∀ s, (w s).1 = verdict lengths

theorem verdict_append (ls ms : List Nat) :
    verdict (ls ++ ms) = verdict ls >>= fun _ => verdict ms := by
  unfold verdict
  rw [List.find?_append]
  cases ls.find? (maxLength < ·) <;> rfl

theorem verdict_eq_ok {ls : List Nat} (h : ∀ n ∈ ls, n ≤ maxLength) : verdict ls = .ok () := by
  have : ls.find? (maxLength < ·) = none := by
    rw [List.find?_eq_none]
    intro n hn
    simpa using h n hn
  rw [verdict, this]

/-! ## Steps -/

namespace Measured

variable {w v : Write} {ls ms : List Nat}

theorem done : Measured (pure ()) [] := fun _ => rfl

theorem bytes (bs : List UInt8) : Measured (Write.bytes bs) [] := fun _ => rfl

theorem bind (h : Measured w ls) (k : Measured v ms) :
    Measured (w >>= fun _ => v) (ls ++ ms) := by
  intro s
  have hs := h s
  rw [verdict_append, ← hs]
  rcases hw : w s with ⟨_ | a, t⟩
  · rw [Step.bind_of_error hw]
    rfl
  · rw [Step.bind_of_ok hw, k t]
    rfl

/-- Goes on after a part without sequences. -/
theorem none_bind (h : Measured w []) (k : Measured v ms) : Measured (w >>= fun _ => v) ms :=
  h.bind k

/-- Goes on after a sequence, or the elements of one that begins with its length. -/
theorem cons_bind {n : Nat} (h : Measured w [n]) (k : Measured v ms) :
    Measured (w >>= fun _ => v) (n :: ms) :=
  h.bind k

theorem length (n : Nat) : Measured (Write.length n) [n] := by
  intro s
  unfold Write.length verdict
  by_cases hn : n ≤ maxLength
  · have hfind : [n].find? (maxLength < ·) = none := by simpa using hn
    rw [hfind]
    split
    · rfl
    · rfl
  · have hlt : maxLength < n := Nat.lt_of_not_le hn
    have hfind : [n].find? (maxLength < ·) = some n := by simpa using hlt
    have hmark : ¬ n < longLengthMark := fun h =>
      absurd (Nat.lt_trans hlt h) (by decide)
    rw [hfind, if_neg hmark, if_neg hn]
    rfl

theorem forEach {f : α → Write} {g : α → List Nat} (h : ∀ a, Measured (f a) (g a))
    (as : List α) : Measured (Step.forEach f as) (as.flatMap g) := by
  induction as with
  | nil => exact done
  | cons a as ih =>
    rw [List.flatMap_cons]
    exact (h a).bind ih

/-! ## The codec -/

theorem text (s : String) : Measured (Write.text s) [s.utf8ByteSize] :=
  (length s.utf8ByteSize).bind (bytes _)

theorem flags (bs : List Bool) : Measured (Write.flags bs) [bs.length] :=
  (length bs.length).bind (bytes _)

theorem sequence {f : α → Write} {g : α → List Nat} (h : ∀ a, Measured (f a) (g a))
    (as : List α) : Measured (Write.sequence f as) (as.length :: as.flatMap g) :=
  (length as.length).bind (forEach h as)

/-- Elements without sequences of their own. -/
theorem plain {f : α → Write} (h : ∀ a, Measured (f a) []) (as : List α) :
    Measured (Write.sequence f as) [as.length] := by
  have hs := sequence h as
  rwa [List.flatMap_eq_nil_iff.2 fun _ _ => rfl] at hs

theorem texts (ss : List String) :
    Measured (Write.scalars ss) (ss.length :: ss.map String.utf8ByteSize) := by
  have hs := sequence text ss
  rwa [← List.map_eq_flatMap] at hs

theorem member [Enumerated α] (a : α) : Measured (Enumerated.write a) [] := by
  rw [Enumerated.write_eq_word]
  exact bytes _

end Measured
end PacketRpc
