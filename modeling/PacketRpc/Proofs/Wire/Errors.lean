import Mathlib.Data.Nat.Digits.Defs
import Mathlib.Data.String.Basic
import PacketRpc.Proofs.Codec.Ordinals
import PacketRpc.Proofs.Packet.Hash

/-!
# The errors of a read

`Step.FailsWith P x`: whatever error `x` ends with is one of `P`. Sequences of steps have no errors
but those of their parts, so that of a composed read it is enough to know the lengths, texts and
members in it.

`ProtocolError.Brief` is such a property. An error of which more input cannot rid a read is worded
in a few words, among which stand numbers of bounded length only; so its wording can always be
written as a text.
-/

namespace PacketRpc

variable {α β : Type} {P : ProtocolError → Prop}

/-! ## Steps -/

namespace Step

variable {σ : Type}

/-- Whatever error the step ends with is one of `P`. -/
def FailsWith (P : ProtocolError → Prop) (x : Step σ α) : Prop :=
  ∀ ⦃s e t⦄, x s = (.error e, t) → P e

namespace FailsWith

variable {x : Step σ α}

theorem done (a : α) : FailsWith P (pure a : Step σ α) := by
  intro s e t h
  cases h

theorem fail {e : ProtocolError} (he : P e) : FailsWith P (Step.fail e : Step σ α) := by
  intro s e' t h
  cases h
  exact he

theorem bind {f : α → Step σ β} (hx : FailsWith P x) (hf : ∀ a, FailsWith P (f a)) :
    FailsWith P (x >>= f) := by
  intro s e u h
  rcases hxs : x s with ⟨_ | a, t⟩
  · rw [bind_of_error hxs] at h
    cases h
    exact hx hxs
  · rw [bind_of_ok hxs] at h
    exact hf a h

theorem map (hx : FailsWith P x) (f : α → β) : FailsWith P (x >>= fun a => pure (f a)) :=
  hx.bind fun a => .done (f a)

theorem repeated (hx : FailsWith P x) (n : Nat) : FailsWith P (Step.repeated n x) := by
  induction n with
  | zero => exact .done []
  | succ n ih =>
    rw [repeated_succ]
    exact hx.bind fun a => ih.map (a :: ·)

end FailsWith
end Step

/-! ## Reads -/

namespace Read

open Step (FailsWith)

section
variable (short : ∀ needed remaining, P (.short needed remaining))
include short

theorem failsWith_bytes (n : Nat) : FailsWith P (bytes n) := by
  intro s e t h
  rcases Nat.lt_or_ge s.remaining n with hn | hn
  · rw [bytes_of_lt hn] at h
    cases h
    exact short _ _
  · rw [bytes_of_le hn] at h
    cases h

theorem failsWith_word (width : Nat) : FailsWith P (word width) :=
  (failsWith_bytes short width).map _

theorem failsWith_member [Enumerated α]
    (bad : ∀ ordinal, P (.badEnum (Enumerated.name α) ordinal (Enumerated.memberCount α))) :
    FailsWith P (Enumerated.read : Read α) := by
  unfold Enumerated.read
  rw [Enumerated.readOrdinal_eq_word]
  refine ((failsWith_word short _).map _).bind fun o => ?_
  split
  · exact .done _
  · exact .fail (bad o)

variable (negative : ∀ n, P (.invalidLength n))
include negative

theorem failsWith_length : FailsWith P length := by
  refine ((failsWith_word short 1).map _).bind fun first => ?_
  split
  · exact .done _
  · refine ((failsWith_word short 4).map _).bind fun n => ?_
    split
    · exact .fail (negative n)
    · exact .done _

theorem failsWith_text (invalid : P .invalidText) : FailsWith P text := by
  refine (failsWith_length short negative).bind fun n => (failsWith_bytes short n).bind fun bs => ?_
  split
  · exact .done _
  · exact .fail invalid

theorem failsWith_sequence {x : Read α} (hx : FailsWith P x) : FailsWith P (sequence x) :=
  (failsWith_length short negative).bind hx.repeated

end
end Read

/-! ## How long wordings are -/

namespace Text

theorem utf8ByteSize_le (s : String) : s.utf8ByteSize ≤ 4 * s.length := by
  rw [← String.utf8Len_toList, ← String.length_toList]
  induction s.toList with
  | nil => exact Nat.le_refl 0
  | cons c cs ih =>
    have := c.utf8Size_le_four
    rw [String.utf8Len_cons, List.length_cons]
    omega

/-- A letter that takes one byte takes as many bytes as it stands there. -/
theorem utf8ByteSize_replicate {c : Char} (hc : c.utf8Size = 1) (n : Nat) :
    (String.ofList (List.replicate n c)).utf8ByteSize = n := by
  rw [← String.utf8Len_toList, String.toList_ofList]
  induction n with
  | zero => rfl
  | succ n ih => rw [List.replicate_succ, String.utf8Len_cons, ih, hc]

theorem length_repr_int_le {n : Int} {digits : Nat} (hd : 0 < digits)
    (h : n.natAbs < 10 ^ digits) : n.repr.length ≤ digits + 1 := by
  match n with
  | .ofNat m => exact Nat.le_succ_of_le (Nat.repr_length m digits hd h)
  | .negSucc m =>
    have hm := Nat.repr_length (m + 1) digits hd h
    show ("-" ++ (m + 1).repr).length ≤ digits + 1
    rw [String.length_append]
    show 1 + _ ≤ _
    omega

end Text

namespace ProtocolError

/-- More input may mend it, or its wording is short. -/
def Brief (e : ProtocolError) : Prop := e.isIncomplete = true ∨ e.message.length ≤ 100

theorem brief_short (needed remaining : Nat) : Brief (.short needed remaining) := .inl rfl

theorem brief_unknownHash (hash : PacketHash) : Brief (.unknownHash hash) := by
  have hl := hash.length_toHex
  right
  unfold message
  rw [String.length_append]
  show 20 + _ ≤ 100
  omega

theorem brief_badEnum {name : String} {members : Nat} (hn : name.length ≤ 32)
    (hm : members ≤ UInt16.size) (ordinal : UInt16) : Brief (.badEnum name ordinal members) := by
  have ho : ordinal.toNat.repr.length ≤ 5 :=
    Nat.repr_length _ _ (by decide) (Nat.lt_trans ordinal.toNat_lt (by decide))
  have hc : members.repr.length ≤ 5 :=
    Nat.repr_length _ _ (by decide) (Nat.lt_of_le_of_lt hm (by decide))
  right
  unfold message
  simp only [String.length_append]
  show 16 + _ + 10 + _ + 2 + _ + 9 ≤ 100
  omega

theorem brief_invalidLength (n : Int32) : Brief (.invalidLength n) := by
  have hn : n.toInt.repr.length ≤ 11 := by
    refine Text.length_repr_int_le (by decide) ?_
    have := n.toInt_lt
    have := n.le_toInt
    show _ < 10000000000
    omega
  right
  unfold message
  rw [String.length_append]
  show 25 + _ ≤ 100
  omega

theorem brief_invalidText : Brief .invalidText := .inr (by decide)

theorem brief_packetTooLarge {size max : Nat} (hs : size < 10 ^ 10) (hm : max < 10 ^ 10) :
    Brief (.packetTooLarge size max) := by
  have hs := Nat.repr_length size 10 (by decide) hs
  have hm := Nat.repr_length max 10 (by decide) hm
  right
  unfold message
  simp only [String.length_append]
  show 18 + _ + 21 + _ + 1 ≤ 100
  omega

end ProtocolError
end PacketRpc
