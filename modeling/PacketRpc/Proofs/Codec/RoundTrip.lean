import Mathlib.Algebra.Group.Nat.Defs
import PacketRpc.Codec.Flags
import PacketRpc.Codec.Scalar
import PacketRpc.Proofs.Codec.Ordinals
import PacketRpc.Proofs.Wire.RoundTrip

/-!
# The codec carries its values

Each kind of value that a field can have is carried by its write and its read: scalars
(`LawfulScalar`), members of enumerations (`LawfulEnumerated`, `carries_member`), flags
(`carries_flags`), and sequences of whatever is carried (`carries_sequence`). The reads are
composed.
-/

namespace PacketRpc

variable {α γ : Type}

/-! ## Scalars -/

/-- A scalar whose read is made of elementary reads and gives back what was written. -/
class LawfulScalar (α : Type) [Scalar α] : Prop where
  composed : ∀ {γ : Type}, Composed fun _ : Read γ => (Scalar.read : Read α)
  carries : ∀ a : α, Carries (Scalar.write a) Scalar.read a

instance : LawfulScalar Int8 := ⟨.int8, carries_int8⟩
instance : LawfulScalar UInt8 := ⟨.uint8, carries_uint8⟩
instance : LawfulScalar Int16 := ⟨.int16, carries_int16⟩
instance : LawfulScalar UInt16 := ⟨.uint16, carries_uint16⟩
instance : LawfulScalar Int32 := ⟨.int32, carries_int32⟩
instance : LawfulScalar Int64 := ⟨.int64, carries_int64⟩
instance : LawfulScalar Binary32 := ⟨.float, carries_float⟩
instance : LawfulScalar Binary64 := ⟨.double, carries_double⟩
instance : LawfulScalar String := ⟨.text, carries_text⟩

theorem carries_scalar [Scalar α] [LawfulScalar α] (a : α) :
    Carries (Write.scalar a) Read.scalar a := LawfulScalar.carries a

/-! ## Sequences -/

theorem carries_sequence {f : α → Write} {x : Read α} {as : List α}
    (h : ∀ a ∈ as, Carries (f a) x a) : Carries (Write.sequence f as) (Read.sequence x) as :=
  (carries_length as.length).bind (.forEach h)

theorem carries_scalars [Scalar α] [LawfulScalar α] (as : List α) :
    Carries (Write.scalars as) Read.scalars as :=
  carries_sequence fun a _ => LawfulScalar.carries a

/-! ## Enumerations -/

namespace Enumerated

variable [Enumerated α]

/-- The ordinal of a value is that of a member. -/
def IsMember (a : α) : Prop := (ordinal a).toNat < memberCount α

instance (a : α) : Decidable (IsMember a) := inferInstanceAs (Decidable (_ < _))

end Enumerated

open Enumerated (IsMember)

/-- An enumeration whose members are found again by their ordinals. -/
class LawfulEnumerated (α : Type) [Enumerated α] : Prop where
  ofOrdinal?_ordinal : ∀ {a : α}, IsMember a →
    Enumerated.ofOrdinal? (Enumerated.ordinal a) = some a

instance {name : String} {count : Nat} : LawfulEnumerated (Ordinal name count) where
  ofOrdinal?_ordinal h := if_pos h

theorem carries_ordinal [Enumerated α] {a : α} (h : IsMember a) :
    Carries (Enumerated.write a) (Enumerated.readOrdinal α) (Enumerated.ordinal a) := by
  rw [Enumerated.write_eq_word, Enumerated.readOrdinal_eq_word]
  refine .ofWord ?_ UInt16.ofNat_toNat
  unfold Enumerated.width
  split
  · -- one byte holds the ordinal of a member of a small enumeration
    have hlt : (Enumerated.ordinal a).toNat < Enumerated.memberCount α := h
    show _ < 256
    omega
  · exact (Enumerated.ordinal a).toNat_lt

theorem carries_member [Enumerated α] [LawfulEnumerated α] {a : α} (h : IsMember a) :
    Carries (Enumerated.write a) Enumerated.read a :=
  (carries_ordinal h).last (by rw [LawfulEnumerated.ofOrdinal?_ordinal h])

theorem carries_members [Enumerated α] [LawfulEnumerated α] {as : List α}
    (h : ∀ a ∈ as, IsMember a) : Carries (Write.members as) Read.members as :=
  carries_sequence fun a ha => carries_member (h a ha)

/-! ## Flags -/

namespace Flags

theorem testBit_number (bs : List Bool) (i : Nat) :
    (number bs).testBit i = (bs[i]?).getD false := by
  induction bs generalizing i with
  | nil => simp [number]
  | cons b bs ih =>
    cases i with
    | zero => cases b <;> simp [number, Nat.testBit_zero]
    | succ i =>
      have hdiv : (number (b :: bs)) / 2 = number bs := by
        cases b with
        | false => simp [number]
        | true =>
          simp only [number, Bool.toNat_true]
          omega
      rw [Nat.testBit_succ, hdiv, ih, List.getElem?_cons_succ]

theorem number_lt (bs : List Bool) : number bs < 2 ^ bs.length := by
  induction bs with
  | nil => exact Nat.one_pos
  | cons b bs ih =>
    have hb : b.toNat ≤ 1 := Bool.toNat_le b
    rw [number, List.length_cons, Nat.pow_succ]
    omega

/-- A byte that holds at most eight flags has them as its lowest bits, and zeros above. -/
theorem bits_number {bs : List Bool} (h : bs.length ≤ 8) :
    bits (UInt8.ofNat (number bs)) = bs ++ List.replicate (8 - bs.length) false := by
  have hlt : number bs < 256 :=
    Nat.lt_of_lt_of_le (number_lt bs) (Nat.pow_le_pow_right (by decide) h)
  apply List.ext_getElem?
  intro i
  rw [bits, UInt8.toNat_ofNat', Nat.mod_eq_of_lt hlt]
  by_cases hi : i < 8
  · by_cases hb : i < bs.length
    · simp [List.getElem?_append_left hb, testBit_number, hi, hb]
    · have hb' : bs.length ≤ i := Nat.le_of_not_lt hb
      rw [List.getElem?_append_right hb', List.getElem?_replicate]
      simp [testBit_number, hi, hb', show i - bs.length < 8 - bs.length by omega]
  · have : 8 ≤ i := Nat.le_of_not_lt hi
    rw [List.getElem?_eq_none (by simp; omega), List.getElem?_eq_none (by simp; omega)]

/-- Packed flags are the bits of their bytes, with zeros behind the last one. -/
theorem flatMap_bits_packInto {k : Nat} {bs : List Bool} (h : bs.length ≤ 8 * k) :
    (packInto k bs).flatMap bits = bs ++ List.replicate (8 * k - bs.length) false := by
  induction k generalizing bs with
  | zero =>
    have : bs = [] := List.eq_nil_of_length_eq_zero (by omega)
    simp [packInto, this]
  | succ k ih =>
    have ht : (bs.take 8).length ≤ 8 := List.length_take_le 8 bs
    rw [packInto, List.flatMap_cons, bits_number ht, ih (by rw [List.length_drop]; omega)]
    rcases Nat.lt_or_ge bs.length 8 with hl | hl
    · rw [List.take_of_length_le (by omega), List.drop_of_length_le (by omega), List.nil_append,
        List.append_assoc, List.replicate_append_replicate]
      congr 2
      rw [List.length_nil]
      omega
    · rw [List.length_take_of_le hl, Nat.sub_self, List.replicate_zero, List.append_nil,
        ← List.append_assoc, List.take_append_drop, List.length_drop]
      congr 2
      omega

theorem length_packInto (k : Nat) (bs : List Bool) : (packInto k bs).length = k := by
  induction k generalizing bs with
  | zero => rfl
  | succ k ih => rw [packInto, List.length_cons, ih]

theorem unpack_pack (bs : List Bool) : unpack bs.length (pack bs) = bs := by
  have h : bs.length ≤ 8 * byteCount bs.length := by
    unfold byteCount
    omega
  rw [unpack, pack, flatMap_bits_packInto h, List.take_left]

end Flags

theorem carries_flags (bs : List Bool) : Carries (Write.flags bs) Read.flags bs := by
  refine (carries_length bs.length).bind ?_
  have h := Carries.bytes (Flags.pack bs)
  rw [Flags.pack, Flags.length_packInto] at h
  exact h.last (congrArg pure (Flags.unpack_pack bs))

/-! ## Reads are composed -/

namespace Composed

theorem scalar [Scalar α] [LawfulScalar α] : Composed fun _ : Read γ => (Read.scalar : Read α) :=
  LawfulScalar.composed

theorem sequence {x : Read γ → Read α} (h : Composed x) :
    Composed fun reference => Read.sequence (x reference) :=
  length.bind fun n => h.repeated n

theorem scalars [Scalar α] [LawfulScalar α] :
    Composed fun _ : Read γ => (Read.scalars : Read (List α)) :=
  LawfulScalar.composed.sequence

theorem flags : Composed fun _ : Read γ => Read.flags :=
  length.bind fun n => (bytes _).map (Flags.unpack n)

theorem member [Enumerated α] : Composed fun _ : Read γ => (Enumerated.read : Read α) := by
  unfold Enumerated.read
  rw [Enumerated.readOrdinal_eq_word]
  refine ((word _).map _).bind fun o => ?_
  split
  · exact .done _
  · exact .fail rfl

theorem members [Enumerated α] : Composed fun _ : Read γ => (Read.members : Read (List α)) :=
  member.sequence

end Composed
end PacketRpc
