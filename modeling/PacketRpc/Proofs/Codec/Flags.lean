import PacketRpc.Proofs.Codec.Respelling
import PacketRpc.Proofs.Wire.Length

/-!
# Where each flag stands

The place of flag `i` is bit `i % 8` of byte `i / 8` (`Flags.at?`). Packing puts every flag in its
place, takes no more bytes than that needs, and leaves zeros behind the last flag
(`Flags.packed_pack`). What is read are the flags in their places one by one, each of which is
within the bytes that are taken (`Flags.gather?_eq`).
-/

namespace PacketRpc

namespace Flags

/-- The flag in place `i`, if there is a byte for it. -/
def at? (bs : List UInt8) (i : Nat) : Option Bool :=
  bs[i / 8]?.map fun b => b.toNat.testBit (i % 8)

/-- The flags in the first `n` places, one by one; nothing if one of the places has no byte. -/
def gather? (bs : List UInt8) (n : Nat) : Option (List Bool) := (List.range n).mapM (at? bs)

/-- Bytes that hold these flags and nothing else. -/
structure Packed (flags : List Bool) (bs : List UInt8) : Prop where
  length : bs.length = (flags.length + 7) / 8
  flag : ∀ (i : Nat) (b : Bool), flags[i]? = some b → at? bs i = some b
  padding : ∀ i, flags.length ≤ i → i < 8 * bs.length → at? bs i = some false

/-! ## Bytes as rows of bits -/

theorem getElem?_flatMap_bits (bs : List UInt8) (i : Nat) : (bs.flatMap bits)[i]? = at? bs i := by
  induction bs generalizing i with
  | nil => rfl
  | cons b bs ih =>
    rw [List.flatMap_cons]
    rcases Nat.lt_or_ge i 8 with hi | hi
    · rw [List.getElem?_append_left (by rw [length_bits]; exact hi)]
      simp [bits, at?, hi, Nat.div_eq_of_lt hi, Nat.mod_eq_of_lt hi]
    · -- one byte further on, in the same bit
      obtain ⟨k, rfl⟩ := Nat.exists_eq_add_of_le hi
      have hdiv : (8 + k) / 8 = k / 8 + 1 := by omega
      have hmod : (8 + k) % 8 = k % 8 := by omega
      rw [List.getElem?_append_right (by rw [length_bits]; exact hi), length_bits,
        Nat.add_sub_cancel_left, ih]
      unfold at?
      rw [hdiv, hmod, List.getElem?_cons_succ]

theorem at?_take {bs : List UInt8} {i k : Nat} (h : i / 8 < k) : at? (bs.take k) i = at? bs i := by
  rw [at?, List.getElem?_take_of_lt h, at?]

theorem getElem?_unpack {bs : List UInt8} {n i : Nat} (h : i < n) :
    (unpack n bs)[i]? = at? bs i := by
  rw [unpack, List.getElem?_take_of_lt h, getElem?_flatMap_bits]

/-- Taking flags one by one gives the beginning of the row of bits, if that is long enough. -/
theorem gather?_eq {bs : List UInt8} {n : Nat} (h : n ≤ 8 * bs.length) :
    gather? bs n = some (unpack n bs) := by
  induction n with
  | zero => rfl
  | succ n ih =>
    have hn : n < (bs.flatMap bits).length := by
      rw [length_flatMap_bits]
      omega
    have hat : at? bs n = some (bs.flatMap bits)[n] := by
      rw [← getElem?_flatMap_bits, List.getElem?_eq_getElem hn]
    have hrange : gather? bs n = some (unpack n bs) := ih (by omega)
    unfold gather? at hrange ⊢
    rw [List.range_succ, List.mapM_append, hrange, List.mapM_cons, hat]
    show some (unpack n bs ++ [(bs.flatMap bits)[n]]) = _
    rw [unpack, unpack, List.take_succ_eq_append_getElem hn]

/-! ## Packing -/

theorem packed_pack (flags : List Bool) : Packed flags (pack flags) := by
  have hlen : (pack flags).length = byteCount flags.length := length_packInto _ _
  have hle : flags.length ≤ 8 * byteCount flags.length := by
    unfold byteCount
    omega
  have hrow : ∀ i, at? (pack flags) i =
      (flags ++ List.replicate (8 * byteCount flags.length - flags.length) false)[i]? := by
    intro i
    rw [← getElem?_flatMap_bits, pack, flatMap_bits_packInto hle]
  refine ⟨hlen, fun i b hb => ?_, fun i hi hlt => ?_⟩
  · obtain ⟨hi, -⟩ := List.getElem?_eq_some_iff.1 hb
    rw [hrow, List.getElem?_append_left hi, hb]
  · rw [hlen] at hlt
    rw [hrow, List.getElem?_append_right hi, List.getElem?_replicate_of_lt (by omega)]

end Flags

/-! ## Writing and reading -/

theorem write_flags {flags : List Bool} (h : flags.length ≤ maxLength) (w : Writer) :
    Write.flags flags w =
      (.ok (), w.append (lengthBytes flags.length ++ Flags.pack flags)) := by
  rw [Write.flags, Step.bind_of_ok (Write.length_eq h w), ← Writer.append_append]
  rfl

/-- Flags are read from their length on, whatever follows the last byte that holds one. -/
theorem read_flags {n : Nat} {front further : List UInt8} (hf : LengthForm n front)
    (h : Flags.byteCount n ≤ further.length) (position : Nat) :
    Read.flags ⟨position, front ++ further⟩ =
      (.ok (Flags.unpack n (further.take (Flags.byteCount n))),
        ⟨position + front.length + Flags.byteCount n, further.drop (Flags.byteCount n)⟩) := by
  rw [Read.flags, Step.bind_of_ok (hf.yields position further), Step.bind_of_ok (Read.bytes_of_le h)]
  rfl

/-- **Flags are packed the lowest bit first, and nothing else is.** A row of flags is written as its
length and the bytes that hold it. From a length in either form and enough bytes behind it, each
flag is read in its place, within the bytes that are taken; whatever the other bits are. -/
theorem flags_in_place :
    (∀ flags : List Bool, flags.length ≤ maxLength →
      ∃ packed, Flags.Packed flags packed ∧
        ∀ w, Write.flags flags w = (.ok (), w.append (lengthBytes flags.length ++ packed))) ∧
    ∀ (n : Nat) (front further : List UInt8), LengthForm n front →
      (n + 7) / 8 ≤ further.length → ∀ position,
      ∃ flags, Flags.gather? (further.take ((n + 7) / 8)) n = some flags ∧
        flags.length = n ∧
        (∀ i < n, i / 8 < (n + 7) / 8 ∧ flags[i]? = Flags.at? further i) ∧
        Read.flags ⟨position, front ++ further⟩ = (.ok flags,
          ⟨position + front.length + (n + 7) / 8, further.drop ((n + 7) / 8)⟩) := by
  refine ⟨fun flags hl => ⟨Flags.pack flags, Flags.packed_pack flags, write_flags hl⟩, ?_⟩
  intro n front further hf h position
  have hlen : (further.take ((n + 7) / 8)).length = (n + 7) / 8 := List.length_take_of_le h
  refine ⟨_, Flags.gather?_eq (by omega), Flags.length_unpack hlen, fun i hi => ?_,
    read_flags hf h position⟩
  have hin : i / 8 < (n + 7) / 8 := by omega
  rw [Flags.getElem?_unpack hi, Flags.at?_take hin]
  exact ⟨hin, rfl⟩

/-- Three flags behind the long form of their length, in a byte of which every other bit is set. -/
theorem flags_in_place_padded :
    (∃ packed, Flags.Packed [true, false, true] packed ∧
      ∀ w, Write.flags [true, false, true] w = (.ok (), w.append (lengthBytes 3 ++ packed))) ∧
    LengthForm 3 [255, 0, 0, 0, 3] ∧
    Read.flags ⟨0, [255, 0, 0, 0, 3] ++ [0xFD, 7]⟩ = (.ok [true, false, true], ⟨6, [7]⟩) := by
  have hf : LengthForm 3 [255, 0, 0, 0, 3] := .long (by decide)
  refine ⟨flags_in_place.1 [true, false, true] (by decide), hf, ?_⟩
  obtain ⟨flags, hg, -, -, hr⟩ := flags_in_place.2 3 _ [0xFD, 7] hf (by decide) 0
  obtain rfl : [true, false, true] = flags := Option.some.inj (hg ▸ by decide)
  exact hr

end PacketRpc
