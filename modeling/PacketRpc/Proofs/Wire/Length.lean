import PacketRpc.Proofs.Wire.Respelling

/-!
# The two forms of a length

A length stands in one byte or, behind a mark, in four (`LengthForm`). Both forms are read
(`LengthForm.yields`); of the two the shorter one is written (`Write.length_eq`), and where there is
neither, nothing is (`Write.length_of_gt`).
-/

namespace PacketRpc

variable {n : Nat}

/-- The bytes that stand for a length. -/
inductive LengthForm (n : Nat) : List UInt8 → Prop
  | short (h : n < longLengthMark) : LengthForm n [UInt8.ofNat n]
  | long (h : n ≤ maxLength) : LengthForm n (UInt8.ofNat longLengthMark :: BigEndian.bytes 4 n)

/-- The bytes that are written for a length. -/
def lengthBytes (n : Nat) : List UInt8 :=
  if n < longLengthMark then [UInt8.ofNat n]
  else UInt8.ofNat longLengthMark :: BigEndian.bytes 4 n

theorem Write.length_eq (h : n ≤ maxLength) (w : Writer) :
    Write.length n w = (.ok (), w.append (lengthBytes n)) := by
  unfold lengthBytes
  split
  · next hn => rw [Write.length_of_lt hn, BigEndian.bytes_one]
  · next hn => exact Write.length_of_le (Nat.not_lt.1 hn) h w

theorem Write.length_of_gt (h : maxLength < n) (w : Writer) :
    Write.length n w = (.error (.lengthOverflow n), w) := by
  have hmark : ¬ n < longLengthMark := fun hn => absurd (Nat.lt_trans h hn) (by decide)
  rw [Write.length, if_neg hmark, if_neg (Nat.not_le.2 h)]
  rfl

theorem length_lengthBytes (n : Nat) :
    (lengthBytes n).length = if n < longLengthMark then 1 else 5 := by
  unfold lengthBytes
  split
  · rfl
  · rw [List.length_cons, BigEndian.length_bytes]

theorem LengthForm.yields {bs : List UInt8} (h : LengthForm n bs) : Yields Read.length bs (.ok n) := by
  cases h with
  | short hn =>
    rw [← BigEndian.bytes_one]
    exact (carries_length n).yields (Write.length_of_lt hn)
  | long hn => exact (carries_longLength hn).yields fun _ => rfl

end PacketRpc
