/-!
# Hexadecimal text

Two digits per byte, the high half first. Writing uses one letter case throughout; reading takes
either case and reports the first fault: an odd length before any wrong character, and of the
wrong characters the leftmost, counted in bytes of the text.
-/

namespace PacketRpc.Hex

/-- The digit of a value below sixteen, with letters from `a` on or from `A` on. -/
def digit (upper : Bool) (v : Nat) : Char :=
  if v < 10 then Char.ofNat (48 + v) else Char.ofNat ((if upper then 55 else 87) + v)

/-- The two digits of each byte, in order. -/
def digits (upper : Bool) (bs : List UInt8) : List Char :=
  bs.flatMap fun b => [digit upper (b.toNat / 16), digit upper (b.toNat % 16)]

/-- Lower-case hexadecimal text. -/
def encode (bs : List UInt8) : String := String.ofList (digits false bs)

/-- Upper-case hexadecimal text. -/
def encodeUpper (bs : List UInt8) : String := String.ofList (digits true bs)

/-- The value of a digit in either case, as a byte of text. -/
def digitValue? (b : UInt8) : Option Nat :=
  if 48 ≤ b ∧ b ≤ 57 then some (b.toNat - 48)
  else if 65 ≤ b ∧ b ≤ 70 then some (b.toNat - 55)
  else if 97 ≤ b ∧ b ≤ 102 then some (b.toNat - 87)
  else none

/-- Why a text is not hexadecimal. -/
inductive Fault
  /-- The text has an odd number of bytes. -/
  | oddLength
  /-- The byte at `index` is no digit; it is shown as the character of that code. -/
  | invalidCharacter (character : Char) (index : Nat)
  deriving DecidableEq, Repr

/-- Reads digit pairs; `index` counts the bytes of text already read. -/
def decodePairs (index : Nat) : List UInt8 → Except Fault (List UInt8)
  | [] => .ok []
  | [_] => .error .oddLength
  | high :: low :: rest =>
    match digitValue? high, digitValue? low with
    | none, _ => .error (.invalidCharacter (Char.ofNat high.toNat) index)
    | _, none => .error (.invalidCharacter (Char.ofNat low.toNat) (index + 1))
    | some h, some l => do
      let bs ← decodePairs (index + 2) rest
      return UInt8.ofNat (h * 16 + l) :: bs

/-- The bytes that a hexadecimal text in any mix of cases stands for. -/
def decode (text : String) : Except Fault (List UInt8) :=
  let bs := text.toUTF8.data.toList
  if bs.length % 2 = 1 then .error .oddLength else decodePairs 0 bs

end PacketRpc.Hex
