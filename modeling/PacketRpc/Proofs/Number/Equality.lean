import PacketRpc.Number.Binary

/-!
# Where equal numbers have equal bits

A number of a binary format has one pattern of bits, except for zero, which has two
(`Format.eq_of_isZero`, `Binary32.isZero_eq`, `Binary64.isZero_eq`). So equality of numbers is
equality of bits where there is no NaN and no negative zero (`Binary32.sameNumber_iff`,
`Binary64.sameNumber_iff`).
-/

namespace PacketRpc

namespace Number.Format

variable {f : Format} {m n : Nat}

/-- The pattern of the negative zero: the sign alone. -/
def negativeZero (f : Format) : Nat := Nat.pow 2 (f.fractionBits + f.exponentBits)

theorem fields_of_isZero (h : (f.decode m).isZero = true) :
    m % Nat.pow 2 f.fractionBits = 0 ∧
      m / Nat.pow 2 f.fractionBits % Nat.pow 2 f.exponentBits = 0 := by
  have hpos : 0 < Nat.pow 2 f.fractionBits := Nat.pow_pos Nat.two_pos
  unfold decode at h
  generalize m % Nat.pow 2 f.fractionBits = fraction at h ⊢
  simp only at h
  split at h
  · split at h <;> cases h
  · split at h
    · next he =>
      cases fraction with
      | zero => exact ⟨rfl, he⟩
      | succ k => cases h
    · -- the mantissa of any other number has a leading bit
      obtain ⟨k, hk⟩ := Nat.exists_eq_succ_of_ne_zero
        (Nat.ne_of_gt (Nat.add_pos_left hpos fraction))
      rw [hk] at h
      cases h

/-- Zero is the pattern without bits or the sign alone. -/
theorem eq_of_isZero (h : (f.decode m).isZero = true) (hlt : m < 2 * f.negativeZero) :
    m = 0 ∨ m = f.negativeZero := by
  obtain ⟨hf, he⟩ := fields_of_isZero h
  have hmul : f.negativeZero = Nat.pow 2 f.fractionBits * Nat.pow 2 f.exponentBits :=
    Nat.pow_add 2 _ _
  have hmod : m % f.negativeZero = 0 := by rw [hmul, Nat.mod_mul, hf, he, Nat.mul_zero]
  obtain ⟨k, hk⟩ := Nat.dvd_of_mod_eq_zero hmod
  have hk2 : k < 2 := by
    rw [hk, Nat.mul_comm 2] at hlt
    exact Nat.lt_of_mul_lt_mul_left hlt
  rcases Nat.lt_succ_iff_lt_or_eq.1 hk2 with hk1 | hk1
  · exact .inl (by rw [hk, Nat.lt_one_iff.1 hk1, Nat.mul_zero])
  · exact .inr (by rw [hk, hk1, Nat.mul_one])

/-- The pattern stands for a number other than the negative zero. -/
def IsPlain (f : Format) (m : Nat) : Prop := f.decode m ≠ .nan ∧ m ≠ f.negativeZero

instance : Decidable (f.IsPlain m) := inferInstanceAs (Decidable (_ ∧ _))

/-- Plain patterns are equal as numbers only where they are equal. -/
theorem same_iff (hm : m < 2 * f.negativeZero) (hn : n < 2 * f.negativeZero) (hpm : f.IsPlain m)
    (hpn : f.IsPlain n) : (f.decode m != .nan && f.decode n != .nan
      && (m == n || ((f.decode m).isZero && (f.decode n).isZero))) = true ↔ m = n := by
  simp only [Bool.and_eq_true, Bool.or_eq_true, bne_iff_ne, beq_iff_eq]
  constructor
  · rintro ⟨-, h | ⟨hm0, hn0⟩⟩
    · exact h
    · rw [(eq_of_isZero hm0 hm).resolve_right hpm.2, (eq_of_isZero hn0 hn).resolve_right hpn.2]
  · exact fun h => ⟨⟨hpm.1, hpn.1⟩, .inl h⟩

end Number.Format

open Number (Format)

namespace Binary32

/-- The number is neither a NaN nor the negative zero. -/
def IsPlain (x : Binary32) : Prop := Format.binary32.IsPlain x.bits.toNat

instance (x : Binary32) : Decidable x.IsPlain := inferInstanceAs (Decidable (Format.IsPlain _ _))

theorem sameNumber_iff {x y : Binary32} (hx : x.IsPlain) (hy : y.IsPlain) :
    x.sameNumber y = true ↔ x = y := by
  obtain ⟨x⟩ := x
  obtain ⟨y⟩ := y
  have hbits : (x == y) = (x.toNat == y.toNat) := by
    rw [Bool.eq_iff_iff, beq_iff_eq, beq_iff_eq, UInt32.toNat_inj]
  rw [mk.injEq, ← UInt32.toNat_inj, ← Format.same_iff x.toNat_lt y.toNat_lt hx hy, ← hbits]
  rfl

/-- Zero has the bits of its sign, if any. -/
theorem isZero_eq (x : Binary32) : x.decode.isZero = (x.bits == 0 || x.bits == 0x80000000) := by
  rw [Bool.eq_iff_iff, Bool.or_eq_true, beq_iff_eq, beq_iff_eq]
  constructor
  · intro h
    rw [← UInt32.toNat_inj, ← UInt32.toNat_inj]
    exact Format.eq_of_isZero h x.bits.toNat_lt
  · rintro (h | h) <;> rw [decode, h] <;> rfl

end Binary32

namespace Binary64

/-- The number is neither a NaN nor the negative zero. -/
def IsPlain (x : Binary64) : Prop := Format.binary64.IsPlain x.bits.toNat

instance (x : Binary64) : Decidable x.IsPlain := inferInstanceAs (Decidable (Format.IsPlain _ _))

theorem sameNumber_iff {x y : Binary64} (hx : x.IsPlain) (hy : y.IsPlain) :
    x.sameNumber y = true ↔ x = y := by
  obtain ⟨x⟩ := x
  obtain ⟨y⟩ := y
  have hbits : (x == y) = (x.toNat == y.toNat) := by
    rw [Bool.eq_iff_iff, beq_iff_eq, beq_iff_eq, UInt64.toNat_inj]
  rw [mk.injEq, ← UInt64.toNat_inj, ← Format.same_iff x.toNat_lt y.toNat_lt hx hy, ← hbits]
  rfl

/-- Zero has the bits of its sign, if any. -/
theorem isZero_eq (x : Binary64) :
    x.decode.isZero = (x.bits == 0 || x.bits == 0x8000000000000000) := by
  rw [Bool.eq_iff_iff, Bool.or_eq_true, beq_iff_eq, beq_iff_eq]
  constructor
  · intro h
    rw [← UInt64.toNat_inj, ← UInt64.toNat_inj]
    exact Format.eq_of_isZero h x.bits.toNat_lt
  · rintro (h | h) <;> rw [decode, h] <;> rfl

end Binary64
end PacketRpc
