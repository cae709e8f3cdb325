import PacketRpc.Bytes.BigEndian
import PacketRpc.Wire.Writer
import PacketRpc.Proofs.Wire.Outcome

/-!
# What is written is read back

`Carries w x a`: whatever the write `w` adds to a writer, once it succeeds, yields `a` when `x`
reads it. Carrying is kept by sequencing (`Carries.bind`) and by repetition (`Carries.forEach`), so
that a codec carries its values as soon as its parts do. Numbers of every width, lengths in both
their forms and texts are carried (`carries_int32`, `carries_length`, `carries_text`).
-/

namespace PacketRpc

variable {α β γ : Type}

/-! ## Carrying -/

/-- Whatever `w` adds, once it succeeds, yields `a` when `x` reads it. -/
def Carries (w : Write) (x : Read α) (a : α) : Prop :=
  ∀ ⦃s t⦄, w s = (.ok (), t) → ∃ bs, t = s.append bs ∧ Yields x bs (.ok a)

namespace Writer

theorem toList_inj {w v : Writer} : w.toList = v.toList ↔ w = v := by
  refine ⟨fun h => ?_, fun h => by rw [h]⟩
  cases w
  cases v
  exact congrArg mk (Array.toList_inj.1 h)

theorem append_nil (w : Writer) : w.append [] = w := toList_inj.1 (by simp)

theorem append_append (w : Writer) (bs cs : List UInt8) :
    (w.append bs).append cs = w.append (bs ++ cs) := toList_inj.1 (by simp)

end Writer

namespace Carries

variable {w v : Write} {x : Read α} {a : α}

theorem done (a : α) : Carries (pure ()) (pure a) a := by
  intro s t h
  cases h
  exact ⟨[], (Writer.append_nil s).symm, .done a⟩

theorem bytes (bs : List UInt8) : Carries (Write.bytes bs) (Read.bytes bs.length) bs := by
  intro s t h
  cases h
  exact ⟨bs, rfl, .bytes bs⟩

theorem bind {f : α → Read β} {b : β} (h : Carries w x a) (k : Carries v (f a) b) :
    Carries (w >>= fun _ => v) (x >>= f) b := by
  intro s u hwv
  obtain ⟨⟨⟩, t, hw, hv⟩ := Step.bind_eq_ok hwv
  obtain ⟨bs, rfl, hx⟩ := h hw
  obtain ⟨cs, rfl, hf⟩ := k hv
  exact ⟨bs ++ cs, Writer.append_append s bs cs, hx.bind hf⟩

/-- The last part of a sequence: nothing is written after it, and nothing more is read. -/
theorem last {f : α → Read β} {b : β} (h : Carries w x a) (hf : f a = pure b) :
    Carries w (x >>= f) b := by
  intro s t hw
  obtain ⟨bs, rfl, hx⟩ := h hw
  have hy : Yields (f a) [] (.ok b) := hf ▸ .done b
  have := hx.bind hy
  rw [List.append_nil] at this
  exact ⟨bs, rfl, this⟩

theorem map (h : Carries w x a) (f : α → β) : Carries w (x >>= fun a => pure (f a)) (f a) :=
  h.last rfl

/-- Two parts that are written one by one and read as a part of their own. -/
theorem bind_bind {u : Write} {f : α → Read β} {g : β → Read γ} {b : β} {c : γ}
    (h : Carries (w >>= fun _ => v) (x >>= f) b) (k : Carries u (g b) c) :
    Carries (w >>= fun _ => v >>= fun _ => u) ((x >>= f) >>= g) c := by
  rw [← Step.bind_assoc]
  exact h.bind k

/-- Elements that are carried one by one are carried as a list. -/
theorem forEach {f : α → Write} {x : Read α} {as : List α} (h : ∀ a ∈ as, Carries (f a) x a) :
    Carries (Step.forEach f as) (Step.repeated as.length x) as := by
  induction as with
  | nil => exact done []
  | cons a as ih =>
    rw [List.length_cons, Step.repeated_succ]
    exact (h a List.mem_cons_self).bind ((ih fun b hb => h b (List.mem_cons_of_mem a hb)).map _)

end Carries

/-! ## Numbers -/

theorem carries_word {width n : Nat} (h : n < BigEndian.limit width) :
    Carries (Write.word width n) (Read.word width) n := by
  have hb := (Carries.bytes (BigEndian.bytes width n)).map BigEndian.value
  rwa [BigEndian.length_bytes, BigEndian.value_bytes, Nat.mod_eq_of_lt h] at hb

/-- A value that is written as the number `n` and read back from it is carried. -/
theorem Carries.ofWord {width n : Nat} {f : Nat → α} {a : α} (h : n < BigEndian.limit width)
    (hf : f n = a) : Carries (Write.word width n) (Read.word width >>= fun m => pure (f m)) a :=
  hf ▸ (carries_word h).map f

theorem carries_bool (b : Bool) : Carries (Write.bool b) Read.bool b :=
  .ofWord (by cases b <;> decide) (by cases b <;> rfl)

theorem carries_int8 (v : Int8) : Carries (Write.int8 v) Read.int8 v :=
  .ofWord v.toUInt8.toNat_lt (by rw [UInt8.ofNat_toNat, Int8.toInt8_toUInt8])

theorem carries_uint8 (v : UInt8) : Carries (Write.uint8 v) Read.uint8 v :=
  .ofWord v.toNat_lt UInt8.ofNat_toNat

theorem carries_int16 (v : Int16) : Carries (Write.int16 v) Read.int16 v :=
  .ofWord v.toUInt16.toNat_lt (by rw [UInt16.ofNat_toNat, Int16.toInt16_toUInt16])

theorem carries_uint16 (v : UInt16) : Carries (Write.uint16 v) Read.uint16 v :=
  .ofWord v.toNat_lt UInt16.ofNat_toNat

theorem carries_int32 (v : Int32) : Carries (Write.int32 v) Read.int32 v :=
  .ofWord v.toUInt32.toNat_lt (by rw [UInt32.ofNat_toNat, Int32.toInt32_toUInt32])

theorem carries_int64 (v : Int64) : Carries (Write.int64 v) Read.int64 v :=
  .ofWord v.toUInt64.toNat_lt (by rw [UInt64.ofNat_toNat, Int64.toInt64_toUInt64])

theorem carries_float (v : Binary32) : Carries (Write.float v) Read.float v :=
  .ofWord v.bits.toNat_lt (by rw [UInt32.ofNat_toNat])

theorem carries_double (v : Binary64) : Carries (Write.double v) Read.double v :=
  .ofWord v.bits.toNat_lt (by rw [UInt64.ofNat_toNat])

/-! ## Lengths and texts -/

theorem Write.bytes_append (bs cs : List UInt8) :
    Write.bytes (bs ++ cs) = Write.bytes bs >>= fun _ => Write.bytes cs := by
  funext s
  rw [Step.bind_apply]
  simp only [Write.bytes, Writer.append_append]

/-- The long form of a length is read, whether or not there is a short one. -/
theorem carries_longLength {n : Nat} (hle : n ≤ maxLength) :
    Carries (Write.bytes (UInt8.ofNat longLengthMark :: BigEndian.bytes 4 n)) Read.length n := by
  have hlt : n < 2 ^ 31 := Nat.lt_succ_of_le hle
  have hmark : Carries (Write.bytes [UInt8.ofNat longLengthMark]) Read.uint8 255 :=
    carries_uint8 255
  have hlong : Carries (Write.bytes (BigEndian.bytes 4 n)) Read.int32 (Int32.ofNat n) :=
    .ofWord (show n < 4294967296 by omega) rfl
  have hpos : ¬ Int32.ofNat n < 0 := by
    rw [Int32.lt_iff_toInt_lt, Int32.toInt_ofNat_of_lt hlt]
    exact Int.not_lt.2 (Int.natCast_nonneg n)
  show Carries (Write.bytes ([UInt8.ofNat longLengthMark] ++ BigEndian.bytes 4 n)) _ _
  rw [Write.bytes_append]
  refine hmark.bind ?_
  rw [if_neg (not_not_intro rfl)]
  exact hlong.last (by rw [if_neg hpos, Int32.toNatClampNeg_ofNat_of_lt hlt])

/-- A length that was written is read back, from either of its forms. -/
theorem carries_length (n : Nat) : Carries (Write.length n) Read.length n := by
  unfold Write.length
  split
  · next hn =>
    -- the short form: its byte is not the mark of the long one
    have hlt : n < 255 := hn
    have hto : (UInt8.ofNat n).toNat = n := by
      rw [UInt8.toNat_ofNat', Nat.mod_eq_of_lt (by omega)]
    have hne : UInt8.ofNat n ≠ 255 := by
      intro h
      rw [h] at hto
      exact absurd hto.symm (Nat.ne_of_lt hlt)
    have hfirst : Carries (Write.word 1 n) Read.uint8 (UInt8.ofNat n) :=
      .ofWord (show n < 256 by omega) rfl
    exact hfirst.last (by rw [if_pos hne, hto])
  · split
    · next hle => exact carries_longLength hle
    · intro s t h
      cases h

/-- The bytes of a text are UTF-8 and stand for that text. -/
theorem fromUTF8?_textBytes (s : String) :
    String.fromUTF8? (Write.textBytes s).toByteArray = some s := by
  have h : (Write.textBytes s).toByteArray = s.toByteArray := by
    apply ByteArray.ext
    simp [Write.textBytes]
  rw [h, String.fromUTF8?, dif_pos s.isValidUTF8]
  rfl

theorem Write.length_textBytes (s : String) : (textBytes s).length = s.utf8ByteSize := by
  simp [textBytes]

theorem carries_text (s : String) : Carries (Write.text s) Read.text s := by
  refine (carries_length s.utf8ByteSize).bind ((Carries.bytes (Write.textBytes s)).last ?_)
  rw [fromUTF8?_textBytes]

end PacketRpc
