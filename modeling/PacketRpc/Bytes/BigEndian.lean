/-!
# Big-endian numbers

A number of a fixed width is written as that many base-256 digits, the most significant first.
`value_bytes` and `bytes_value` say that writing and reading undo each other, up to the width.
-/

namespace PacketRpc.BigEndian

/-- How many numbers have `width` base-256 digits. -/
def limit : (width : Nat) → Nat
  | 0 => 1
  | width + 1 => 256 * limit width

/-- The low `width` base-256 digits of `n`, the most significant first. -/
def bytes : (width : Nat) → (n : Nat) → List UInt8
  | 0, _ => []
  | width + 1, n => UInt8.ofNat (n / limit width) :: bytes width n

/-- Reads digits onto what `acc` already holds. -/
def valueFrom (acc : Nat) (bs : List UInt8) : Nat :=
  bs.foldl (fun n b => n * 256 + b.toNat) acc

/-- The number whose base-256 digits are `bs`, the most significant first. -/
def value (bs : List UInt8) : Nat := valueFrom 0 bs

theorem limit_succ (width : Nat) : limit (width + 1) = 256 * limit width := rfl

theorem limit_pos (width : Nat) : 0 < limit width := by
  induction width with
  | zero => exact Nat.one_pos
  | succ width ih => exact Nat.mul_pos (by omega) ih

@[simp] theorem length_bytes (width n : Nat) : (bytes width n).length = width := by
  induction width with
  | zero => rfl
  | succ width ih => rw [bytes, List.length_cons, ih]

theorem valueFrom_cons (acc : Nat) (b : UInt8) (bs : List UInt8) :
    valueFrom acc (b :: bs) = valueFrom (acc * 256 + b.toNat) bs := rfl

theorem valueFrom_eq (acc : Nat) (bs : List UInt8) :
    valueFrom acc bs = acc * limit bs.length + value bs := by
  induction bs generalizing acc with
  | nil => exact (Nat.mul_one acc).symm
  | cons b bs ih =>
    have hv : value (b :: bs) = b.toNat * limit bs.length + value bs := by
      show valueFrom (0 * 256 + b.toNat) bs = _
      rw [ih, Nat.zero_mul, Nat.zero_add]
    rw [valueFrom_cons, ih, hv, List.length_cons, limit_succ, Nat.add_mul, Nat.mul_assoc,
      Nat.add_assoc]

@[simp] theorem value_nil : value [] = 0 := rfl

theorem value_cons (b : UInt8) (bs : List UInt8) :
    value (b :: bs) = b.toNat * limit bs.length + value bs := by
  show valueFrom (0 * 256 + b.toNat) bs = _
  rw [valueFrom_eq, Nat.zero_mul, Nat.zero_add]

theorem value_lt (bs : List UInt8) : value bs < limit bs.length := by
  induction bs with
  | nil => exact Nat.one_pos
  | cons b bs ih =>
    have hb : b.toNat ≤ 255 := by have := b.toNat_lt; omega
    have hm : b.toNat * limit bs.length ≤ 255 * limit bs.length := Nat.mul_le_mul_right _ hb
    rw [value_cons, List.length_cons, limit_succ]
    omega

/-- Reading what was written gives the number back, reduced to the width. -/
theorem value_bytes (width n : Nat) : value (bytes width n) = n % limit width := by
  induction width with
  | zero => exact (Nat.mod_one n).symm
  | succ width ih =>
    rw [bytes, value_cons, ih, length_bytes, limit_succ, Nat.mul_comm 256, Nat.mod_mul,
      UInt8.toNat_ofNat', Nat.add_comm, Nat.mul_comm (limit width)]

/-- Writing what was read gives the bytes back, whatever multiple of the limit is added. -/
theorem bytes_add_value (bs : List UInt8) (k : Nat) :
    bytes bs.length (k * limit bs.length + value bs) = bs := by
  induction bs generalizing k with
  | nil => rfl
  | cons b bs ih =>
    have hv := value_lt bs
    have hpos := limit_pos bs.length
    have key : k * limit (b :: bs).length + value (b :: bs)
        = (k * 256 + b.toNat) * limit bs.length + value bs := by
      rw [value_cons, List.length_cons, limit_succ, Nat.add_mul, Nat.mul_assoc, Nat.add_assoc]
    have hdiv : ((k * 256 + b.toNat) * limit bs.length + value bs) / limit bs.length
        = k * 256 + b.toNat := by
      rw [Nat.mul_comm, Nat.mul_add_div hpos, Nat.div_eq_of_lt hv, Nat.add_zero]
    rw [key, List.length_cons, bytes, ih, hdiv]
    congr 1
    apply UInt8.toNat_inj.mp
    have := b.toNat_lt
    rw [UInt8.toNat_ofNat']
    omega

/-- Writing what was read gives the bytes back. -/
theorem bytes_value (bs : List UInt8) : bytes bs.length (value bs) = bs := by
  have h := bytes_add_value bs 0
  rwa [Nat.zero_mul, Nat.zero_add] at h

end PacketRpc.BigEndian
