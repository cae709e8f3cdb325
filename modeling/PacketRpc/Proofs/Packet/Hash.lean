import PacketRpc.Packet.Hash
import PacketRpc.Proofs.Bytes.Hex

/-!
# The text of a hash

A hash and its eight bytes determine each other (`toBytes_ofBytes`, `ofBytes_toBytes`), and so do
eight bytes and sixteen digits. So a text is read as a hash exactly if its upper-case form is what
is written for that hash (`ofHex?_eq_some_iff`), and some hash is read of it exactly if it has
sixteen digits (`exists_ofHex?_iff`). `PacketHash.text_faithful` puts this together.
-/

namespace PacketRpc.PacketHash

variable {text : String} {h : PacketHash}

/-! ## Hashes and bytes -/

theorem length_toBytes (h : PacketHash) : h.toBytes.length = 8 := BigEndian.length_bytes 8 _

theorem toBytes_ofBytes {bs : List UInt8} (h : bs.length = 8) : (ofBytes bs).toBytes = bs := by
  have hlt := BigEndian.value_lt bs
  have hb := BigEndian.bytes_value bs
  rw [h] at hlt hb
  have hv : (UInt64.ofNat (BigEndian.value bs)).toInt64.toUInt64.toNat = BigEndian.value bs :=
    UInt64.toNat_ofNat_of_lt hlt
  rw [toBytes, ofBytes, hv, hb]

theorem ofBytes_toBytes (h : PacketHash) : ofBytes h.toBytes = h := by
  have hv : BigEndian.value h.toBytes = h.value.toUInt64.toNat := by
    rw [toBytes, BigEndian.value_bytes]
    exact Nat.mod_eq_of_lt h.value.toUInt64.toNat_lt
  rw [ofBytes, hv, UInt64.ofNat_toNat, Int64.toInt64_toUInt64]

/-! ## Hashes and digits -/

theorem length_toHex (h : PacketHash) : h.toHex.length = 16 := by
  rw [toHex, Hex.length_encodeUpper, length_toBytes]

theorem toUpper_toHex (h : PacketHash) : h.toHex.toUpper = h.toHex := Hex.toUpper_digits true _

theorem isUpperDigit_toHex : ∀ c ∈ h.toHex.toList, Hex.IsUpperDigit c :=
  fun _ => Hex.isUpperDigit_of_mem

/-- A text is read as the hash for which it is written, up to the case of its letters. -/
theorem ofHex?_eq_some_iff : ofHex? text = some h ↔ text.toUpper = h.toHex := by
  have hbytes : ofHex? text = some h ↔ Hex.decode text = .ok h.toBytes := by
    rw [ofHex?]
    rcases Hex.decode text with _ | bs
    · simp
    · simp only [Except.ok.injEq]
      constructor
      · intro he
        split at he
        · next hl => rw [← Option.some.inj he, toBytes_ofBytes hl]
        · cases he
      · rintro rfl
        rw [if_pos h.length_toBytes, ofBytes_toBytes]
  rw [hbytes, Hex.decode_eq_ok_iff, toHex]

theorem exists_ofHex?_iff :
    (∃ h, ofHex? text = some h) ↔ text.length = 16 ∧ ∀ c ∈ text.toList, Hex.IsDigit c := by
  constructor
  · rintro ⟨h, he⟩
    have hu := ofHex?_eq_some_iff.1 he
    refine ⟨?_, (Hex.exists_decode_iff.1 ⟨h.toBytes, Hex.decode_eq_ok_iff.2 hu⟩).2⟩
    rw [← h.length_toHex, ← hu, String.toUpper, String.length_map]
  · rintro ⟨hl, hd⟩
    obtain ⟨bs, hb⟩ := Hex.exists_decode_iff.2 ⟨by omega, hd⟩
    have hu := Hex.decode_eq_ok_iff.1 hb
    have h8 : bs.length = 8 := by
      have := congrArg String.length hu
      rw [String.toUpper, String.length_map, Hex.length_encodeUpper] at this
      omega
    exact ⟨ofBytes bs, ofHex?_eq_some_iff.2 (by rw [toHex, toBytes_ofBytes h8, hu])⟩

/-- **The text of a hash is a faithful notation.** It has sixteen upper-case digits and is read as
the hash. What is read as some hash are the texts of sixteen digits, with letters in any mix of
cases, and each of them as the hash of which it is the text, once its letters are upper-case. So a
text of another length, or with anything in it that is no digit, is refused, and hashes are equal
exactly if their texts are. -/
theorem text_faithful :
    (∀ h : PacketHash, h.toHex.length = 16 ∧ (∀ c ∈ h.toHex.toList, Hex.IsUpperDigit c) ∧
      ofHex? h.toHex = some h) ∧
    (∀ text, (ofHex? text).isSome ↔ text.length = 16 ∧ ∀ c ∈ text.toList, Hex.IsDigit c) ∧
    (∀ text h, ofHex? text = some h ↔ h.toHex = text.toUpper) ∧
    (∀ text, ofHex? text = none ↔ text.length ≠ 16 ∨ ∃ c ∈ text.toList, ¬ Hex.IsDigit c) ∧
    ∀ h k : PacketHash, h = k ↔ h.toHex = k.toHex := by
  have back (h : PacketHash) : ofHex? h.toHex = some h := ofHex?_eq_some_iff.2 h.toUpper_toHex
  have some_iff (text : String) :
      (ofHex? text).isSome ↔ text.length = 16 ∧ ∀ c ∈ text.toList, Hex.IsDigit c := by
    rw [Option.isSome_iff_exists, exists_ofHex?_iff]
  refine ⟨fun h => ⟨h.length_toHex, isUpperDigit_toHex, back h⟩, some_iff,
    fun text h => ofHex?_eq_some_iff.trans eq_comm, fun text => ?_, fun h k => ⟨congrArg toHex, ?_⟩⟩
  · rw [← Option.not_isSome_iff_eq_none, some_iff, not_and_or]
    simp only [not_forall, exists_prop]
  · intro he
    have hk := back h
    rw [he, back k] at hk
    exact (Option.some.inj hk).symm

/-- A negative hash: its text begins with a letter, is read in any mix of cases, and is refused with
a sign in the place of its first digit. -/
theorem text_faithful_negative :
    let h : PacketHash := ⟨-5766039731982384765⟩
    (h.toHex = "AFFAE969DE66C183" ∧ ∀ c ∈ h.toHex.toList, Hex.IsUpperDigit c) ∧
    ofHex? "affAe969dE66c183" = some h ∧ ofHex? "-FFAE969DE66C183" = none := by
  intro h
  obtain ⟨written, -, read, refused, -⟩ := text_faithful
  have hh : h.toHex = "AFFAE969DE66C183" := by decide
  have hu : h.toHex = "affAe969dE66c183".toUpper := by
    rw [hh, ← String.toList_inj, String.toUpper, String.toList_map]
    decide
  exact ⟨⟨hh, (written h).2.1⟩, (read _ h).2 hu, (refused _).2 (.inr ⟨'-', by decide, by decide⟩)⟩

end PacketRpc.PacketHash
