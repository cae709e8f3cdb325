import PacketRpc.Proofs.Exchange.OneShot

/-!
# Inputs of any length

A decoder lets only so many bytes wait. They come a read at a time, so when it finds that too many
are waiting, it finds it within one read of the limit (`Oversized`). Whatever comes, waiting ends in
one of three ways (`Decoder.awaited`): with what stands at the front, with the error that too much
is waiting, or with nothing, where the input ends too early and within the limit. How the input is
cut makes a difference only where it overruns the limit (`Oversized.overruns`).
-/

namespace PacketRpc

open Envelope (deserialize)

/-- The first `size` bytes go beyond the limit, by no more than a read, and do not settle what
stands at the front. -/
structure Oversized (r : Registry) (limit : Nat) (bs : List UInt8) (size : Nat) : Prop where
  short : Short (deserialize r (bs.take size))
  limit_lt : limit < size
  size_le : size ≤ limit + readSize
  size_le_length : size ≤ bs.length

/-- What stands at the front is not settled within the limit, and the bytes go on beyond it. -/
structure Overruns (r : Registry) (limit : Nat) (bs : List UInt8) : Prop where
  short : Short (deserialize r (bs.take limit))
  limit_lt : limit < bs.length

/-- What can come of waiting for what stands at the front of `bs`. -/
inductive Awaited (r : Registry) (limit : Nat) (bs : List UInt8) :
    Option (Except ProtocolError (Option Packet)) → Prop
  | settled (h : ¬ Short (deserialize r bs)) : Awaited r limit bs (some (deserialize r bs))
  | oversized {size : Nat} (h : Oversized r limit bs size) :
    Awaited r limit bs (some (.error (.packetTooLarge size limit)))
  | unfinished (h : Short (deserialize r bs)) (hl : bs.length ≤ limit) : Awaited r limit bs none

namespace Envelope

variable {r : Registry} {bs : List UInt8}

/-- What settles a beginning settles all that goes on from it. -/
theorem deserialize_append (h : ¬ Short (deserialize r bs)) (more : List UInt8) :
    deserialize r (bs ++ more) = deserialize r bs := by
  obtain ⟨cs, rest, hb, hy⟩ := yields_deserialize h
  rw [deserialize, hb, List.append_assoc, read_start hy, ← hb]

theorem short_take {m n : Nat} (hm : m ≤ n) (h : Short (deserialize r (bs.take n))) :
    Short (deserialize r (bs.take m)) := by
  apply Classical.byContradiction
  intro hs
  have ht : bs.take n = bs.take m ++ (bs.drop m).take (n - m) := by
    rw [← List.take_add, Nat.add_sub_cancel' hm]
  rw [ht, deserialize_append hs] at h
  exact hs h

end Envelope

theorem Oversized.overruns {r : Registry} {limit size : Nat} {bs : List UInt8}
    (h : Oversized r limit bs size) : Overruns r limit bs where
  short := Envelope.short_take (Nat.le_of_lt h.limit_lt) h.short
  limit_lt := Nat.lt_of_lt_of_le h.limit_lt h.size_le_length

namespace Decoder

variable {d : Decoder} {pieces : List (List UInt8)}

/-! ## At one moment -/

theorem front?_of_settled (h : ¬ Short (deserialize d.registry d.buffer)) :
    d.front? = some (deserialize d.registry d.buffer) := by
  obtain ⟨cs, rest, hb, hy⟩ := Envelope.yields_deserialize h
  exact front?_of_yields hb hy h

theorem front?_of_oversized (hs : Short (deserialize d.registry d.buffer))
    (hh : headerSize ≤ d.maxSize) (hm : d.maxSize < d.buffered) :
    d.front? = some (.error (.packetTooLarge d.buffered d.maxSize)) := by
  have hb : headerSize ≤ d.buffered := Nat.le_trans hh (Nat.le_of_lt hm)
  simp only [front?, decode_of_short hs, hb, hm, and_self, if_true]

variable (hh : headerSize ≤ d.maxSize)
include hh

theorem short_of_front (h : d.front? = none) :
    Short (deserialize d.registry d.buffer) ∧ d.buffered ≤ d.maxSize := by
  have hs : Short (deserialize d.registry d.buffer) := by
    apply Classical.byContradiction
    intro hs
    rw [front?_of_settled hs] at h
    cases h
  refine ⟨hs, Nat.le_of_not_lt fun hm => ?_⟩
  rw [front?_of_oversized hs hh hm] at h
  cases h

variable (hd : d.buffered ≤ d.maxSize + readSize)
include hd

theorem awaited_of_front {o : Except ProtocolError (Option Packet)} (h : d.front? = some o)
    (more : List UInt8) : Awaited d.registry d.maxSize (d.buffer ++ more) (some o) := by
  by_cases hs : Short (deserialize d.registry d.buffer)
  · rcases Nat.lt_or_ge d.maxSize d.buffered with hm | hm
    · rw [front?_of_oversized hs hh hm] at h
      cases h
      refine .oversized ⟨?_, hm, hd, ?_⟩
      · rwa [buffered, List.take_left]
      · rw [List.length_append]
        exact Nat.le_add_right _ _
    · rw [front?_of_short hs hm] at h
      cases h
  · rw [front?_of_settled hs, Option.some.injEq] at h
    have ha := Envelope.deserialize_append hs more
    rw [← h, ← ha]
    exact .settled (ha ▸ hs)

/-! ## Over all reads -/

/-- **Whatever comes, waiting ends in one of three ways**, if each piece is one read. -/
theorem awaited (hp : ∀ p ∈ pieces, p.length ≤ readSize) :
    Awaited d.registry d.maxSize (d.buffer ++ pieces.flatten) (d.await pieces) := by
  induction pieces generalizing d with
  | nil =>
    rcases hf : d.front? with _ | o
    · obtain ⟨hs, hm⟩ := short_of_front hh hf
      rw [await, hf, List.flatten_nil, List.append_nil]
      exact .unfinished hs hm
    · rw [await_of_some hf]
      exact awaited_of_front hh hd hf _
  | cons piece pieces ih =>
    rcases hf : d.front? with _ | o
    · obtain ⟨-, hm⟩ := short_of_front hh hf
      -- nothing was told, so no more than the limit was waiting when this read came
      have hl : (d.extend piece).buffered ≤ d.maxSize + readSize := by
        have := hp piece List.mem_cons_self
        rw [buffered, extend, List.length_append]
        exact Nat.add_le_add hm this
      rw [await, hf, Option.none_or, List.flatten_cons, ← List.append_assoc]
      exact ih (d := d.extend piece) hh hl fun p h => hp p (List.mem_cons_of_mem _ h)
    · rw [await_of_some hf]
      exact awaited_of_front hh hd hf _

end Decoder

/-- What a server makes of an input of any length. -/
theorem Service.exists_awaited (s : Service) {i : Input} (hi : i.WellCut) :
    ∃ w, Awaited s.registry maxPacketSize i.bytes w ∧
      s.readRequest i = (w.map requestOf).getD (.error (cutShort s.readTimeout i.ending)) :=
  have hm : headerSize ≤ maxPacketSize := by decide
  ⟨_, Decoder.awaited (d := { registry := s.registry }) hm (Nat.zero_le _) fun p hp => (hi p hp).2,
    readPieces_eq _ _ _ _⟩

end PacketRpc
