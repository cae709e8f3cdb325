import PacketRpc.Proofs.Codec.RoundTrip
import PacketRpc.Proofs.Wire.Respelling

/-!
# Spellings of flags and sequences

Flags are written again as they were read unless bits are set behind the last one
(`Flags.pack_unpack_eq_iff`). A sequence is written again with the shorter form of its length, if
there is one, and with each element as it is written again on its own (`Respells.sequence`).
-/

namespace PacketRpc

namespace Deviation

/-- Passes over flags. -/
def ofFlags : Read (List Deviation) := do
  let (n, ds) ← ofLength
  let bs ← Read.bytes (Flags.byteCount n)
  let bits := (bs.flatMap Flags.bits).drop n
  return ds ++ if bits.any id then [padding bits] else []

/-- Passes over a sequence whose elements `x` passes over. -/
def ofSequence (x : Read (List Deviation)) : Read (List Deviation) := do
  let (n, ds) ← ofLength
  let dss ← Step.repeated n x
  return ds ++ dss.flatten

end Deviation

open Deviation (ofFlags ofSequence)

/-! ## Flags -/

namespace Flags

theorem length_bits (b : UInt8) : (bits b).length = 8 := by
  rw [bits, List.length_map, List.length_range]

theorem bits_ne_nil (b : UInt8) : bits b ≠ [] :=
  List.ne_nil_of_length_eq_add_one (length_bits b)

theorem bits_inj {b c : UInt8} (h : bits b = bits c) : b = c := by
  rw [← UInt8.toNat_inj]
  refine Nat.eq_of_testBit_eq fun i => ?_
  rcases Nat.lt_or_ge i 8 with hi | hi
  · exact List.map_inj_left.1 h i (List.mem_range.2 hi)
  · have hlt (b : UInt8) : b.toNat < 2 ^ i :=
      Nat.lt_of_lt_of_le b.toNat_lt (Nat.pow_le_pow_right (by decide) hi)
    rw [Nat.testBit_lt_two_pow (hlt b), Nat.testBit_lt_two_pow (hlt c)]

theorem length_flatMap_bits (bs : List UInt8) : (bs.flatMap bits).length = 8 * bs.length := by
  induction bs with
  | nil => rfl
  | cons b bs ih =>
    rw [List.flatMap_cons, List.length_append, length_bits, ih, List.length_cons]
    omega

theorem flatMap_bits_inj {bs cs : List UInt8} (h : bs.flatMap bits = cs.flatMap bits) :
    bs = cs := by
  induction bs generalizing cs with
  | nil =>
    cases cs with
    | nil => rfl
    | cons c cs =>
      rw [List.flatMap_cons, List.flatMap_nil] at h
      exact absurd (List.append_eq_nil_iff.1 h.symm).1 (bits_ne_nil c)
  | cons b bs ih =>
    cases cs with
    | nil =>
      rw [List.flatMap_cons, List.flatMap_nil] at h
      exact absurd (List.append_eq_nil_iff.1 h).1 (bits_ne_nil b)
    | cons c cs =>
      rw [List.flatMap_cons, List.flatMap_cons] at h
      obtain ⟨hb, hbs⟩ := List.append_inj h ((length_bits b).trans (length_bits c).symm)
      rw [bits_inj hb, ih hbs]

section
variable {n : Nat} {bs : List UInt8} (h : bs.length = byteCount n)
include h

theorem length_unpack : (unpack n bs).length = n := by
  rw [unpack, List.length_take_of_le]
  rw [length_flatMap_bits, h, byteCount]
  omega

/-- Packed flags are packed again as they were unless bits are set behind the last flag. -/
theorem pack_unpack_eq_iff :
    pack (unpack n bs) = bs ↔ ((bs.flatMap bits).drop n).any id = false := by
  have hn : n ≤ 8 * byteCount n := by
    rw [byteCount]
    omega
  have hp : (pack (unpack n bs)).flatMap bits =
      (bs.flatMap bits).take n ++ List.replicate (8 * byteCount n - n) false := by
    rw [pack, length_unpack h, flatMap_bits_packInto (by rw [length_unpack h]; exact hn),
      length_unpack h, unpack]
  calc pack (unpack n bs) = bs
    _ ↔ (pack (unpack n bs)).flatMap bits = bs.flatMap bits :=
      ⟨fun he => by rw [he], flatMap_bits_inj⟩
    _ ↔ (bs.flatMap bits).drop n = List.replicate (8 * byteCount n - n) false := by
      have hb := List.take_append_drop n (bs.flatMap bits)
      rw [hp]
      exact ⟨fun he => List.append_cancel_left (hb.trans he.symm), fun he => he ▸ hb⟩
    _ ↔ ((bs.flatMap bits).drop n).any id = false := by
      rw [List.eq_replicate_iff, List.length_drop, length_flatMap_bits, h]
      simp

end
end Flags

theorem respelling_flags {s t : Reader} {flags : List Bool} (h : Read.flags s = (.ok flags, t)) :
    ∃ ds, ofFlags s = (.ok ds, t) ∧ Respelling Read.flags (Write.flags flags) flags s t ds := by
  obtain ⟨n, u, hn, h⟩ := Step.bind_eq_ok h
  obtain ⟨bs, u', hb, h⟩ := Step.bind_eq_ok h
  cases h
  obtain ⟨ds, hd, hr⟩ := respelling_length hn
  obtain ⟨hl, hs⟩ := Read.bytes_eq_ok hb
  have hu := Flags.length_unpack hl
  refine ⟨_, by rw [ofFlags, Step.bind_of_ok hd]; exact Step.bind_of_ok hb _, ?_⟩
  rw [Write.flags, hu]
  have hy : Yields (Read.bytes (Flags.byteCount n) >>= fun bs => pure (Flags.unpack n bs))
      (Flags.pack (Flags.unpack n bs)) (.ok (Flags.unpack n bs)) := by
    have hc := (Carries.bytes (Flags.pack (Flags.unpack n bs))).map (Flags.unpack n)
    have hp := Flags.unpack_pack (Flags.unpack n bs)
    rw [Flags.pack, Flags.length_packInto, ← Flags.pack, hu] at hc
    rw [hu] at hp
    rw [hp] at hc
    exact hc.yields fun _ => rfl
  refine hr.bind ⟨bs, Flags.pack (Flags.unpack n bs), hs, fun _ => rfl, hy, ?_, ?_⟩
  · exact Nat.le_of_eq (by rw [Flags.pack, Flags.length_packInto, hu, hl])
  · rw [Flags.pack_unpack_eq_iff hl]
    split <;> simp_all

/-! ## Sequences -/

theorem Respells.sequence {α : Type} {x : Read α} {y : Read (List Deviation)}
    {f : α → Option Write} (h : Respells x y f) :
    Respells (Read.sequence x) (ofSequence y) fun as => (as.mapM f).map (Write.sequence id) := by
  intro s as t hx
  obtain ⟨n, u, hn, hx⟩ := Step.bind_eq_ok hx
  obtain ⟨ds, hd, hr⟩ := respelling_length hn
  obtain ⟨ws, dss, hws, hl, hy, hrs⟩ := h.repeated hx
  refine ⟨Write.sequence id ws, ds ++ dss.flatten,
    congrArg (Option.map (Write.sequence id)) hws, ?_, ?_⟩
  · rw [ofSequence, Step.bind_of_ok hd]
    exact Step.bind_of_ok hy _
  · rw [Write.sequence, hl]
    exact hr.bind hrs

end PacketRpc
