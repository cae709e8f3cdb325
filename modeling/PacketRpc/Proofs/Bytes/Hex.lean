import Mathlib.Data.String.Basic
import Mathlib.Tactic.SplitIfs
import PacketRpc.Bytes.Hex
import PacketRpc.Number.Digits

/-!
# Hexadecimal text is read as it is written

A text is read as pairs of digits, and each digit as the half of a byte (`decodePairs_eq_ok_iff`).
Bytes of which no digit consists come from every letter beyond ASCII, so reading the bytes of a text
is reading its letters (`map_bytes_eq_iff`). A letter has a value exactly if its upper-case form is
the digit that is written for it (`value?_eq_some_iff`).

`Hex.decode_eq_ok_iff`: a text stands for those bytes for which it is written, up to the case of its
letters. `Hex.exists_decode_iff`: exactly the even numbers of digits stand for bytes.
-/

namespace PacketRpc

/-- Only the letters from `a` to `z` have an upper-case form of their own. -/
theorem Text.toNat_toUpper (c : Char) :
    c.toUpper.toNat = if 97 ≤ c.toNat ∧ c.toNat ≤ 122 then c.toNat - 32 else c.toNat := by
  have hle : (97 ≤ c.toNat ∧ c.toNat ≤ 122) ↔ ('a'.val ≤ c.val ∧ c.val ≤ 'z'.val) := by
    rw [UInt32.le_iff_toNat_le, UInt32.le_iff_toNat_le]
    rfl
  simp only [hle]
  unfold Char.toUpper
  split
  · next h =>
    have hc := hle.2 h
    have hminus : ('A'.val - 'a'.val).toNat = 2 ^ 32 - 32 := by decide
    rw [← Char.toNat_val, UInt32.toNat_add, hminus, Char.toNat_val]
    omega
  · rfl

theorem Text.bytes_eq_flatMap (s : String) :
    s.toUTF8.data.toList = s.toList.flatMap String.utf8EncodeChar := by
  have h : s.toByteArray = s.toList.utf8Encode := by
    rw [← String.toByteArray_ofList, String.ofList_toList]
  rw [String.toUTF8_eq_toByteArray, h, List.utf8Encode, List.toList_data_toByteArray]

namespace Hex

/-- A decimal digit, or a letter from `A` to `F`. -/
def IsUpperDigit (c : Char) : Prop := '0' ≤ c ∧ c ≤ '9' ∨ 'A' ≤ c ∧ c ≤ 'F'

/-- A hexadecimal digit, whose letter may be in either case. -/
def IsDigit (c : Char) : Prop := IsUpperDigit c ∨ 'a' ≤ c ∧ c ≤ 'f'

instance : DecidablePred IsUpperDigit := fun _ => inferInstanceAs (Decidable (_ ∨ _))

instance : DecidablePred IsDigit := fun _ => inferInstanceAs (Decidable (_ ∨ _))

/-- The halves of bytes, the high half of each first. -/
def halves (bs : List UInt8) : List Nat := bs.flatMap fun b => [b.toNat / 16, b.toNat % 16]

variable {c : Char} {v : Nat} {bs : List UInt8}

/-! ## Single digits -/

theorem char_le_iff (a b : Char) : a ≤ b ↔ a.toNat ≤ b.toNat := by
  rw [Char.le_def, UInt32.le_iff_toNat_le]
  rfl

/-- The codes of the first and the last digit of each kind. -/
theorem toNat_ends : '0'.toNat = 48 ∧ '9'.toNat = 57 ∧ 'A'.toNat = 65 ∧ 'F'.toNat = 70 ∧
    'a'.toNat = 97 ∧ 'f'.toNat = 102 := by decide

theorem isUpperDigit_iff :
    IsUpperDigit c ↔ 48 ≤ c.toNat ∧ c.toNat ≤ 57 ∨ 65 ≤ c.toNat ∧ c.toNat ≤ 70 := by
  obtain ⟨h0, h9, hA, hF, -, -⟩ := toNat_ends
  simp only [IsUpperDigit, char_le_iff, h0, h9, hA, hF]

theorem isDigit_iff : IsDigit c ↔ IsUpperDigit c ∨ 97 ≤ c.toNat ∧ c.toNat ≤ 102 := by
  obtain ⟨-, -, -, -, ha, hf⟩ := toNat_ends
  simp only [IsDigit, char_le_iff, ha, hf]

/-- The value of a byte or letter of the given code as a digit. -/
def valueOfCode (n : Nat) : Option Nat :=
  if 48 ≤ n ∧ n ≤ 57 then some (n - 48)
  else if 65 ≤ n ∧ n ≤ 70 then some (n - 55)
  else if 97 ≤ n ∧ n ≤ 102 then some (n - 87)
  else none

theorem digitValue?_eq (b : UInt8) : digitValue? b = valueOfCode b.toNat := by
  simp only [digitValue?, UInt8.le_iff_toNat_le]
  rfl

theorem value?_eq (c : Char) : Digits.value? 16 c = valueOfCode c.toNat := by
  obtain ⟨h0, h9, hA, hF, ha, hf⟩ := toNat_ends
  simp only [Digits.value?, valueOfCode, char_le_iff, h0, h9, hA, hF, ha, hf]
  split_ifs <;> first | rfl | omega

theorem toNat_digit (hv : v < 16) : (digit true v).toNat = if v < 10 then 48 + v else 55 + v := by
  have digits : ∀ v < 16, (digit true v).toNat = if v < 10 then 48 + v else 55 + v := by decide
  exact digits v hv

theorem toUpper_digit (hv : v < 16) (upper : Bool) : (digit upper v).toUpper = digit true v := by
  have digits : ∀ v < 16, ∀ upper, (digit upper v).toUpper = digit true v := by decide
  exact digits v hv upper

/-- A letter has a value if its upper-case form is the digit that is written for it. -/
theorem value?_eq_some_iff :
    Digits.value? 16 c = some v ↔ v < 16 ∧ c.toUpper = digit true v := by
  rw [value?_eq, valueOfCode, ← Char.toNat_inj, Text.toNat_toUpper]
  constructor
  · intro h
    have hv : v < 16 := by split_ifs at h <;> cases h <;> omega
    rw [toNat_digit hv]
    split_ifs at h <;> cases h <;> exact ⟨hv, by split_ifs <;> omega⟩
  · rintro ⟨hv, h⟩
    rw [toNat_digit hv] at h
    split_ifs at h ⊢ <;> first | omega | exact congrArg some (by omega)

theorem isDigit_iff_value? : IsDigit c ↔ (Digits.value? 16 c).isSome := by
  rw [isDigit_iff, isUpperDigit_iff, value?_eq, valueOfCode]
  split_ifs <;> simp <;> omega

/-! ## Bytes and their halves -/

theorem mem_halves_lt (h : v ∈ halves bs) : v < 16 := by
  obtain ⟨b, -, hb⟩ := List.mem_flatMap.1 h
  have := b.toNat_lt
  rcases List.mem_pair.1 hb with rfl | rfl <;> omega

theorem length_halves (bs : List UInt8) : (halves bs).length = 2 * bs.length := by
  induction bs with
  | nil => rfl
  | cons b bs ih =>
    simp only [halves, List.flatMap_cons, List.length_append, List.length_cons,
      List.length_nil] at *
    omega

theorem digits_eq_map (upper : Bool) (bs : List UInt8) :
    digits upper bs = (halves bs).map (digit upper) := by
  simp [digits, halves, List.map_flatMap]

theorem halves_cons (b : UInt8) (bs : List UInt8) :
    halves (b :: bs) = b.toNat / 16 :: b.toNat % 16 :: halves bs := rfl

/-- Two halves make a byte. -/
theorem halves_eq_cons {h l : Nat} (hh : h < 16) (hl : l < 16) {vs : List Nat} :
    halves bs = h :: l :: vs ↔ ∃ cs, bs = UInt8.ofNat (h * 16 + l) :: cs ∧ halves cs = vs := by
  have hb : (UInt8.ofNat (h * 16 + l)).toNat = h * 16 + l := by
    rw [UInt8.toNat_ofNat', Nat.mod_eq_of_lt (by omega)]
  constructor
  · intro he
    cases bs with
    | nil => cases he
    | cons b bs =>
      rw [halves_cons, List.cons.injEq, List.cons.injEq] at he
      obtain ⟨h1, h2, rfl⟩ := he
      refine ⟨bs, ?_, rfl⟩
      congr 1
      rw [← UInt8.toNat_inj, hb]
      omega
  · rintro ⟨cs, rfl, rfl⟩
    rw [halves_cons, hb]
    congr 1
    · omega
    · congr 1
      omega

/-- An even number of halves makes bytes. -/
theorem exists_halves {vs : List Nat} (hvs : ∀ v ∈ vs, v < 16) (he : vs.length % 2 = 0) :
    ∃ bs, halves bs = vs := by
  match vs with
  | [] => exact ⟨[], rfl⟩
  | [v] => cases he
  | h :: l :: vs =>
    simp only [List.mem_cons, forall_eq_or_imp] at hvs
    obtain ⟨hh, hl, hvs⟩ := hvs
    obtain ⟨bs, rfl⟩ := exists_halves hvs (by rw [List.length_cons, List.length_cons] at he; omega)
    exact ⟨_, (halves_eq_cons hh hl).2 ⟨bs, rfl, rfl⟩⟩

/-! ## Reading -/

theorem digitValue?_lt {b : UInt8} (h : digitValue? b = some v) : v < 16 := by
  rw [digitValue?_eq, valueOfCode] at h
  split_ifs at h <;> cases h <;> omega

/-- Pairs of digits are read as the bytes of which they are the halves. -/
theorem decodePairs_eq_ok_iff {index : Nat} {text : List UInt8} :
    decodePairs index text = .ok bs ↔ text.map digitValue? = (halves bs).map some := by
  fun_induction decodePairs index text generalizing bs with
  | case1 => cases bs <;> simp [halves]
  | case2 index b => cases bs <;> simp [halves]
  | case3 index high low rest hh => cases bs <;> simp [halves, hh]
  | case4 index high low rest hl hh => cases bs <;> simp [halves, hl]
  | case5 index high low rest h l hl hh ih =>
    have hdecode : (do let cs ← decodePairs (index + 2) rest; return UInt8.ofNat (h * 16 + l) :: cs)
        = Except.ok bs ↔ ∃ cs, bs = UInt8.ofNat (h * 16 + l) :: cs ∧
          decodePairs (index + 2) rest = .ok cs := by
      cases decodePairs (index + 2) rest <;> simp [bind, Except.bind, pure, Except.pure, eq_comm]
    rw [hdecode, List.map_cons, List.map_cons, hh, hl]
    constructor
    · rintro ⟨cs, rfl, hcs⟩
      rw [(halves_eq_cons (digitValue?_lt hh) (digitValue?_lt hl)).2 ⟨cs, rfl, rfl⟩, ih.1 hcs]
      rfl
    · intro he
      obtain ⟨vs, hvs⟩ : ∃ vs, halves bs = h :: l :: vs ∧ rest.map digitValue? = vs.map some := by
        match halves bs, he with
        | _ :: _ :: vs, he => simpa [eq_comm, and_assoc] using he
      obtain ⟨cs, rfl, rfl⟩ := (halves_eq_cons (digitValue?_lt hh) (digitValue?_lt hl)).1 hvs.1
      exact ⟨cs, rfl, ih.2 hvs.2⟩

/-! ## Texts -/

theorem digitValue?_eq_none {b : UInt8} (h : 128 ≤ b.toNat) : digitValue? b = none := by
  rw [digitValue?_eq, valueOfCode]
  split_ifs <;> first | rfl | omega

/-- An ASCII letter is its own byte; any other has no value and begins with a byte that has none. -/
theorem map_utf8EncodeChar (c : Char) :
    (String.utf8EncodeChar c).map digitValue? = [Digits.value? 16 c] ∨
      Digits.value? 16 c = none ∧ (String.utf8EncodeChar c).head?.map digitValue? = some none := by
  have hc : c.val.toNat = c.toNat := rfl
  have hbyte {n : Nat} (h : n < 256) : (UInt8.ofNat n).toNat = n := by
    rw [UInt8.toNat_ofNat', Nat.mod_eq_of_lt h]
  by_cases hn : c.toNat ≤ 127
  · left
    simp only [String.utf8EncodeChar, hc, if_pos hn, List.map_cons, List.map_nil]
    rw [digitValue?_eq, hbyte (by omega), value?_eq]
  · right
    constructor
    · rw [value?_eq, valueOfCode]
      split_ifs <;> first | rfl | omega
    · obtain ⟨n, bs, hn, hlt, he⟩ : ∃ n bs, 128 ≤ n ∧ n < 256 ∧
          String.utf8EncodeChar c = UInt8.ofNat n :: bs := by
        simp only [String.utf8EncodeChar, hc, if_neg hn]
        split_ifs <;> exact ⟨_, _, by omega, by omega, rfl⟩
      rw [he, List.head?_cons, Option.map_some, digitValue?_eq_none (by rwa [hbyte hlt])]

/-- Reading the bytes of a text is reading its letters. -/
theorem map_bytes_eq_iff {cs : List Char} {vs : List Nat} :
    (cs.flatMap String.utf8EncodeChar).map digitValue? = vs.map some ↔
      cs.map (Digits.value? 16) = vs.map some := by
  induction cs generalizing vs with
  | nil => rfl
  | cons c cs ih =>
    rw [List.flatMap_cons, List.map_append]
    obtain h | ⟨hn, hb⟩ := map_utf8EncodeChar c
    · cases vs <;> simp [h, ih]
    · obtain ⟨b, hb, hd⟩ := Option.map_eq_some_iff.1 hb
      obtain ⟨bs, he⟩ := List.head?_eq_some_iff.1 hb
      cases vs <;> simp [he, hn, hd]

theorem map_value?_eq_iff {cs : List Char} {vs : List Nat} :
    cs.map (Digits.value? 16) = vs.map some ↔
      (∀ v ∈ vs, v < 16) ∧ cs.map Char.toUpper = vs.map (digit true) := by
  induction cs generalizing vs with
  | nil => cases vs <;> simp
  | cons c cs ih =>
    cases vs with
    | nil => simp
    | cons v vs =>
      simp only [List.map_cons, List.cons.injEq, value?_eq_some_iff, ih, List.forall_mem_cons]
      exact and_and_and_comm

theorem length_eq_of_map {α : Type} {f : α → Option Nat} {as : List α} {vs : List Nat}
    (h : as.map f = vs.map some) : as.length = vs.length := by
  have hl := congrArg List.length h
  rwa [List.length_map, List.length_map] at hl

theorem decode_eq_ok_iff_map {text : String} :
    decode text = .ok bs ↔ text.toList.map (Digits.value? 16) = (halves bs).map some := by
  rw [← map_bytes_eq_iff, ← Text.bytes_eq_flatMap, decode]
  split
  · next ho =>
    -- the halves of bytes are even in number
    simp only [reduceCtorEq, false_iff]
    intro h
    have hl := (length_eq_of_map h).trans (length_halves bs)
    omega
  · exact decodePairs_eq_ok_iff

/-- **A text stands for the bytes for which it is written**, up to the case of its letters. -/
theorem decode_eq_ok_iff {text : String} :
    decode text = .ok bs ↔ text.toUpper = encodeUpper bs := by
  have hupper : text.toUpper.toList = text.toList.map Char.toUpper := String.toList_map
  rw [decode_eq_ok_iff_map, map_value?_eq_iff, ← String.toList_inj, hupper, encodeUpper,
    String.toList_ofList, digits_eq_map]
  exact and_iff_right fun v hv => mem_halves_lt hv

/-- Any even number of digits stands for bytes, and nothing else does. -/
theorem exists_decode_iff {text : String} :
    (∃ bs, decode text = .ok bs) ↔ text.length % 2 = 0 ∧ ∀ c ∈ text.toList, IsDigit c := by
  simp only [decode_eq_ok_iff_map, isDigit_iff_value?]
  rw [← String.length_toList]
  constructor
  · rintro ⟨bs, h⟩
    have hl := (length_eq_of_map h).trans (length_halves bs)
    refine ⟨by omega, fun c hc => ?_⟩
    have hm : Digits.value? 16 c ∈ (halves bs).map some := h ▸ List.mem_map_of_mem hc
    obtain ⟨v, -, hv⟩ := List.mem_map.1 hm
    rw [← hv, Option.isSome_some]
  · rintro ⟨he, h⟩
    obtain ⟨vs, hvs⟩ : ∃ vs : List Nat, text.toList.map (Digits.value? 16) = vs.map some := by
      refine ⟨text.toList.map fun c => (Digits.value? 16 c).getD 0, ?_⟩
      rw [List.map_map]
      refine List.map_congr_left fun c hc => ?_
      obtain ⟨v, hv⟩ := Option.isSome_iff_exists.1 (h c hc)
      rw [Function.comp_apply, hv, Option.getD_some]
    obtain ⟨bs, rfl⟩ := exists_halves (map_value?_eq_iff.1 hvs).1 (length_eq_of_map hvs ▸ he)
    exact ⟨bs, hvs⟩

/-! ## Writing -/

theorem length_encodeUpper (bs : List UInt8) : (encodeUpper bs).length = 2 * bs.length := by
  rw [encodeUpper, String.length_ofList, digits_eq_map, List.length_map, length_halves]

/-- What is written, in whichever case, is in upper case what is written so. -/
theorem toUpper_digits (upper : Bool) (bs : List UInt8) :
    (String.ofList (digits upper bs)).toUpper = encodeUpper bs := by
  rw [← String.toList_inj, String.toUpper, String.toList_map, String.toList_ofList, encodeUpper,
    String.toList_ofList, digits_eq_map, digits_eq_map, List.map_map]
  exact List.map_congr_left fun v hv => toUpper_digit (mem_halves_lt hv) upper

theorem isUpperDigit_of_mem (h : c ∈ (encodeUpper bs).toList) : IsUpperDigit c := by
  rw [encodeUpper, String.toList_ofList, digits_eq_map] at h
  obtain ⟨v, hv, rfl⟩ := List.mem_map.1 h
  have hlt := mem_halves_lt hv
  rw [isUpperDigit_iff, toNat_digit hlt]
  split <;> omega

end Hex
end PacketRpc
