import PacketRpc.Codec.Enumerated
import PacketRpc.Proofs.Wire.Outcome

/-!
# Ordinals are words

The ordinal of a value is written and read as a word, which is as wide as the number of the members
asks for (`Enumerated.width`).
-/

namespace PacketRpc

variable {α : Type}

/-- A word is a number of its width, so that no other number counts for what is done with it. -/
theorem Read.word_bind_congr {width : Nat} {f g : Nat → Read α}
    (h : ∀ n < BigEndian.limit width, f n = g n) :
    Read.word width >>= f = Read.word width >>= g := by
  funext s
  rcases Nat.lt_or_ge s.remaining width with hs | hs
  · have hw : Read.word width s = _ := Step.bind_of_error (Read.bytes_of_lt hs) _
    rw [Step.bind_of_error hw, Step.bind_of_error hw]
  · have hw : Read.word width s = _ := Step.bind_of_ok (Read.bytes_of_le hs) _
    have hv := BigEndian.value_lt (s.rest.take width)
    rw [List.length_take_of_le hs] at hv
    rw [Step.bind_of_ok hw, Step.bind_of_ok hw, h _ hv]

namespace Enumerated

variable [Enumerated α]

/-- How many bytes an ordinal takes. -/
def width (α : Type) [Enumerated α] : Nat := if memberCount α ≤ 255 then 1 else 2

theorem width_eq : width α = if isLarge α then 2 else 1 := by
  unfold width isLarge smallEnumLimit
  by_cases h : memberCount α ≤ 255
  · rw [if_pos h, if_neg (by simpa using h)]
  · rw [if_neg h, if_pos (by simpa using h)]

theorem write_eq_word (a : α) : write a = Write.word (width α) (ordinal a).toNat := by
  unfold write
  rw [width_eq]
  split
  · rfl
  · -- the low byte is all that one byte takes of a number
    have hb : BigEndian.bytes 1 (ordinal a).toUInt8.toNat =
        BigEndian.bytes 1 (ordinal a).toNat := by
      simp [BigEndian.bytes, BigEndian.limit, ← UInt8.toNat_inj]
    exact congrArg Write.bytes hb

theorem readOrdinal_eq_word :
    readOrdinal α = Read.word (width α) >>= fun n => pure (UInt16.ofNat n) := by
  unfold readOrdinal
  rw [width_eq]
  split
  · rfl
  · show (Read.word 1 >>= fun n => pure (UInt8.ofNat n)) >>= _ = _
    rw [Step.bind_assoc]
    refine Read.word_bind_congr fun n hn => ?_
    have hlt : n < 256 := hn
    have ho : (UInt8.ofNat n).toUInt16 = UInt16.ofNat n := by
      simp [← UInt16.toNat_inj]
      omega
    exact congrArg (pure : UInt16 → Read UInt16) ho

end Enumerated
end PacketRpc
