import PacketRpc.Proofs.Wire.RoundTrip

/-!
# Spellings that are read and not written

More is read than is written, in three ways: any byte but zero is a boolean that is true, a short
length may stand in the long form, and the bits behind the last flag may be anything. A reader of
deviations (`Deviation.ofBool`, `Deviation.ofLength`) passes over the same bytes as the read of the
value and lists where they deviate.

`Respelling x w a s t ds`: `x` has read `a` from `s` to `t`, with the deviations `ds`; what `w`
writes is read as `a` again, is no longer than what was read, and is the same if and only if there
are no deviations. Respellings follow one another (`Respelling.bind`), so that a read whose values
are respelled part by part is respelled (`Respells`).
-/

namespace PacketRpc

variable {α β : Type}

/-- A spelling that is read and never written. -/
inductive Deviation
  /-- A boolean in a byte other than 0 and 1. -/
  | boolean (byte : UInt8)
  /-- A length below 255 in five bytes. -/
  | length (n : Nat)
  /-- Bits behind the last flag that are not all zero. -/
  | padding (bits : List Bool)
  deriving DecidableEq, Repr

/-! ## Respellings -/

/-- What has been read can be written, as long at most and as it was unless it deviates (module
doc). -/
def Respelling (x : Read α) (w : Write) (a : α) (s t : Reader) (ds : List Deviation) : Prop :=
  ∃ bs cs, s.Spans bs t ∧ (∀ u, w u = (.ok (), u.append cs)) ∧ Yields x cs (.ok a) ∧
    cs.length ≤ bs.length ∧ (cs = bs ↔ ds = [])

theorem Carries.yields {w : Write} {x : Read α} {a : α} {cs : List UInt8} (h : Carries w x a)
    (hw : ∀ u, w u = (.ok (), u.append cs)) : Yields x cs (.ok a) := by
  obtain ⟨bs, hb, hy⟩ := h (hw Writer.empty)
  obtain rfl : cs = bs := by simpa [← Writer.toList_inj] using hb
  exact hy

namespace Respelling

variable {x : Read α} {w v : Write} {a : α} {s t u : Reader} {ds es : List Deviation}

/-- What was read is what is written. -/
theorem same {bs : List UInt8} (hs : s.Spans bs t) (hw : ∀ u, w u = (.ok (), u.append bs))
    (hy : Yields x bs (.ok a)) : Respelling x w a s t [] :=
  ⟨bs, bs, hs, hw, hy, Nat.le_refl _, by simp⟩

theorem done (a : α) (s : Reader) : Respelling (pure a) (pure ()) a s s [] :=
  same (.refl s) (fun u => by rw [Writer.append_nil]; rfl) (.done a)

theorem bind {f : α → Read β} {b : β} (h : Respelling x w a s t ds)
    (k : Respelling (f a) v b t u es) :
    Respelling (x >>= f) (w >>= fun _ => v) b s u (ds ++ es) := by
  obtain ⟨bs, cs, hs, hw, hy, hl, hi⟩ := h
  obtain ⟨bs', cs', hs', hv, hy', hl', hi'⟩ := k
  refine ⟨bs ++ bs', cs ++ cs', hs.trans hs', fun z => ?_, hy.bind hy', ?_, fun he => ?_, ?_⟩
  · rw [Step.bind_of_ok (hw z), hv, Writer.append_append]
  · rw [List.length_append, List.length_append]
    exact Nat.add_le_add hl hl'
  · -- neither part has become longer, so that neither has become shorter
    have hn := congrArg List.length he
    rw [List.length_append, List.length_append] at hn
    obtain ⟨hc, hc'⟩ := List.append_inj he (by omega)
    rw [hi.1 hc, hi'.1 hc', List.append_nil]
  · intro hd
    obtain ⟨hd, hd'⟩ := List.append_eq_nil_iff.1 hd
    rw [hi.2 hd, hi'.2 hd']

/-- The last part of a sequence: nothing more is read. -/
theorem last {f : α → Read β} {b : β} (h : Respelling x w a s t ds) (hf : f a = pure b) :
    Respelling (x >>= f) w b s t ds := by
  obtain ⟨bs, cs, hs, hw, hy, hl, hi⟩ := h
  have hb := hy.bind (hf ▸ Yields.done b)
  rw [List.append_nil] at hb
  exact ⟨bs, cs, hs, hw, hb, hl, hi⟩

/-- What respells by one read respells by another that gives a value of its own there. -/
theorem imp {y : Read β} {b : β} (h : Respelling x w a s t ds)
    (hy : ∀ ⦃u v⦄, x u = (.ok a, v) → y u = (.ok b, v)) : Respelling y w b s t ds := by
  obtain ⟨bs, cs, hs, hw, hx, hl, hi⟩ := h
  exact ⟨bs, cs, hs, hw, fun n rest => hy (hx n rest), hl, hi⟩

end Respelling

/-- Whatever `x` reads, `f` can write again, and `y` lists the deviations of what was read. -/
def Respells (x : Read α) (y : Read (List Deviation)) (f : α → Option Write) : Prop :=
  ∀ ⦃s a t⦄, x s = (.ok a, t) →
    ∃ w ds, f a = some w ∧ y s = (.ok ds, t) ∧ Respelling x w a s t ds

namespace Respells

variable {x : Read α} {y : Read (List Deviation)} {f : α → Option Write}

/-- A value that can always be written. -/
theorem of_respelling {g : α → Write} (h : ∀ {s a t}, x s = (.ok a, t) →
    ∃ ds, y s = (.ok ds, t) ∧ Respelling x (g a) a s t ds) : Respells x y fun a => some (g a) := by
  intro s a t ha
  obtain ⟨ds, hd, hr⟩ := h ha
  exact ⟨g a, ds, rfl, hd, hr⟩

/-- A value that is told by another is written and read as that one. -/
theorem map (h : Respells x y f) {g : α → β} {f' : β → Option Write} (hg : ∀ a, f' (g a) = f a) :
    Respells (x >>= fun a => pure (g a)) y f' := by
  intro s b t hb
  obtain ⟨a, u, ha, hu⟩ := Step.bind_eq_ok hb
  cases hu
  obtain ⟨w, ds, hw, hy, hr⟩ := h ha
  exact ⟨w, ds, (hg a).trans hw, hy, hr.last rfl⟩

/-- The values of a repeated read are written one after another. -/
theorem repeated (h : Respells x y f) {n : Nat} {s t : Reader} {as : List α}
    (hx : Step.repeated n x s = (.ok as, t)) :
    ∃ ws dss, as.mapM f = some ws ∧ ws.length = n ∧ Step.repeated n y s = (.ok dss, t) ∧
      Respelling (Step.repeated n x) (Step.forEach id ws) as s t dss.flatten := by
  induction n generalizing s as with
  | zero =>
    cases hx
    exact ⟨[], [], rfl, rfl, rfl, .done [] _⟩
  | succ n ih =>
    rw [Step.repeated_succ] at hx
    obtain ⟨a, u, ha, hx⟩ := Step.bind_eq_ok hx
    obtain ⟨bs, v, hb, hv⟩ := Step.bind_eq_ok hx
    cases hv
    obtain ⟨w, ds, hw, hy, hr⟩ := h ha
    obtain ⟨ws, dss, hws, hl, hys, hrs⟩ := ih hb
    refine ⟨w :: ws, ds :: dss, ?_, by rw [List.length_cons, hl], ?_, ?_⟩
    · rw [List.mapM_cons, hw, hws]
      rfl
    · rw [Step.repeated_succ, Step.bind_of_ok hy, Step.bind_of_ok hys]
      rfl
    · rw [Step.repeated_succ, Step.forEach, List.flatten_cons]
      exact hr.bind (hrs.last rfl)

end Respells

/-! ## Bytes, words and lengths -/

section
variable {s t : Reader} {n width : Nat}

theorem Read.bytes_eq_ok {bs : List UInt8} (h : Read.bytes n s = (.ok bs, t)) :
    bs.length = n ∧ s.Spans bs t := by
  rcases Nat.lt_or_ge s.remaining n with hn | hn
  · rw [Read.bytes_of_lt hn] at h
    cases h
  · rw [Read.bytes_of_le hn] at h
    cases h
    have hl : (s.rest.take n).length = n := List.length_take_of_le hn
    exact ⟨hl, (List.take_append_drop n s.rest).symm, by rw [hl]; rfl⟩

theorem Read.word_eq_ok (h : Read.word width s = (.ok n, t)) :
    n < BigEndian.limit width ∧ s.Spans (BigEndian.bytes width n) t := by
  obtain ⟨bs, u, hb, hn⟩ := Step.bind_eq_ok h
  obtain ⟨rfl, hs⟩ := Read.bytes_eq_ok hb
  cases hn
  rw [BigEndian.bytes_value]
  exact ⟨BigEndian.value_lt bs, hs⟩

theorem respelling_bytes {bs : List UInt8} (h : Read.bytes n s = (.ok bs, t)) :
    Respelling (Read.bytes n) (Write.bytes bs) bs s t [] := by
  obtain ⟨rfl, hs⟩ := Read.bytes_eq_ok h
  exact .same hs (fun _ => rfl) (.bytes bs)

theorem respelling_word (h : Read.word width s = (.ok n, t)) :
    Respelling (Read.word width) (Write.word width n) n s t [] := by
  obtain ⟨hn, hs⟩ := Read.word_eq_ok h
  exact .same hs (fun _ => rfl) ((carries_word hn).yields fun _ => rfl)

theorem respelling_int64 {v : Int64} (h : Read.int64 s = (.ok v, t)) :
    Respelling Read.int64 (Write.int64 v) v s t [] := by
  obtain ⟨n, u, hn, hu⟩ := Step.bind_eq_ok h
  cases hu
  have hv : Write.int64 (UInt64.ofNat n).toInt64 = Write.word 8 n :=
    congrArg (Write.word 8) (UInt64.toNat_ofNat_of_lt (Read.word_eq_ok hn).1)
  rw [hv]
  exact (respelling_word hn).last rfl

/-- From half of its range on, a word of four bytes is negative as a signed number. -/
theorem toInt_word_of_le {k : Nat} (hk : k < 4294967296) (h : maxLength < k) :
    (UInt32.ofNat k).toInt32.toInt = (k : Int) - 4294967296 := by
  rw [show (UInt32.ofNat k).toInt32.toInt = (k : Int).bmod (2 ^ 32) from Int32.toInt_ofNat',
    Int.bmod_def]
  have h : 2147483647 < k := h
  simp
  omega

private theorem le_of_not_neg {k : Nat} (hk : k < 4294967296)
    (h : ¬ (UInt32.ofNat k).toInt32 < 0) : k ≤ maxLength := by
  apply Classical.byContradiction
  intro hge
  refine h (Int32.lt_iff_toInt_lt.2 ?_)
  rw [toInt_word_of_le hk (Nat.not_le.1 hge)]
  exact Int.sub_neg_of_lt (Int.ofNat_lt.2 hk)

/-- The two forms in which a length is read. -/
theorem Read.length_eq_ok (h : Read.length s = (.ok n, t)) :
    n < longLengthMark ∧ s.Spans (BigEndian.bytes 1 n) t ∨
      n ≤ maxLength ∧ s.Spans (UInt8.ofNat longLengthMark :: BigEndian.bytes 4 n) t := by
  obtain ⟨first, u, hf, h⟩ := Step.bind_eq_ok h
  obtain ⟨m, u', hm, hu⟩ := Step.bind_eq_ok hf
  cases hu
  obtain ⟨hlt, hs⟩ := Read.word_eq_ok hm
  have hlt : m < 256 := hlt
  have hto : (UInt8.ofNat m).toNat = m := by rw [UInt8.toNat_ofNat', Nat.mod_eq_of_lt hlt]
  split at h
  · next hne =>
    cases h
    rw [hto]
    -- one byte other than the mark
    refine .inl ⟨Nat.lt_of_le_of_ne (Nat.le_of_lt_succ hlt) fun he => hne ?_, hs⟩
    rw [← UInt8.toNat_inj, hto, he]
    rfl
  · next he =>
    obtain ⟨v, u', hv, h⟩ := Step.bind_eq_ok h
    obtain ⟨k, u'', hk, hu⟩ := Step.bind_eq_ok hv
    cases hu
    obtain ⟨hklt, hs'⟩ := Read.word_eq_ok hk
    obtain rfl : m = longLengthMark := by
      rw [← hto, Classical.not_not.1 he]
      rfl
    split at h
    · cases h
    · next hpos =>
      cases h
      have hle := le_of_not_neg hklt hpos
      rw [show (UInt32.ofNat k).toInt32.toNatClampNeg = k from
        Int32.toNatClampNeg_ofNat_of_lt (Nat.lt_succ_of_le hle)]
      exact .inr ⟨hle, hs.trans hs'⟩

theorem Write.length_of_lt (h : n < longLengthMark) (u : Writer) :
    Write.length n u = (.ok (), u.append (BigEndian.bytes 1 n)) := by
  rw [Write.length, if_pos h]
  rfl

theorem Write.length_of_le (hn : longLengthMark ≤ n) (h : n ≤ maxLength) (u : Writer) :
    Write.length n u =
      (.ok (), u.append (UInt8.ofNat longLengthMark :: BigEndian.bytes 4 n)) := by
  rw [Write.length, if_neg (Nat.not_lt.2 hn), if_pos h]
  rfl

end

namespace Deviation

/-- Passes over a boolean. -/
def ofBool : Read (List Deviation) := do
  let b ← Read.uint8
  return if b = 0 ∨ b = 1 then [] else [boolean b]

/-- Passes over a length, and gives it too. -/
def ofLength : Read (Nat × List Deviation) := fun s =>
  match Read.length s with
  | (.ok n, t) =>
    (.ok (n, if t.position = s.position + 5 ∧ n < longLengthMark then [length n] else []), t)
  | (.error e, t) => (.error e, t)

/-- Passes over a text. -/
def ofText : Read (List Deviation) := do
  let (n, ds) ← ofLength
  let _ ← Read.bytes n
  return ds

end Deviation

open Deviation (ofBool ofLength ofText)

section
variable {s t : Reader}

theorem BigEndian.bytes_one (n : Nat) : BigEndian.bytes 1 n = [UInt8.ofNat n] := by
  simp [BigEndian.bytes, BigEndian.limit]

theorem respelling_bool {b : Bool} (h : Read.bool s = (.ok b, t)) :
    ∃ ds, ofBool s = (.ok ds, t) ∧ Respelling Read.bool (Write.bool b) b s t ds := by
  obtain ⟨n, u, hw, hb⟩ := Step.bind_eq_ok h
  obtain ⟨hn, hs⟩ := Read.word_eq_ok hw
  cases hb
  refine ⟨_, Step.bind_of_ok (Step.bind_of_ok hw _) _, BigEndian.bytes 1 n, _, hs, fun _ => rfl,
    (carries_bool _).yields fun _ => rfl, by simp, ?_⟩
  have hzero : UInt8.ofNat n = 0 ↔ n = 0 := by
    rw [← UInt8.toNat_inj, UInt8.toNat_ofNat', Nat.mod_eq_of_lt (show n < 2 ^ 8 from hn)]
    rfl
  rw [BigEndian.bytes_one, BigEndian.bytes_one]
  rcases Nat.eq_zero_or_pos n with rfl | hpos
  · simp
  · have hne : n ≠ 0 := Nat.ne_of_gt hpos
    by_cases h1 : UInt8.ofNat n = 1
    · simp [h1, hne]
    · simp [h1, hne, hzero, Ne.symm h1]

theorem respelling_length {n : Nat} (h : Read.length s = (.ok n, t)) :
    ∃ ds, ofLength s = (.ok (n, ds), t) ∧ Respelling Read.length (Write.length n) n s t ds := by
  refine ⟨_, by rw [ofLength, h], ?_⟩
  obtain ⟨hn, hs⟩ | ⟨hle, hs⟩ := Read.length_eq_ok h
  · have hp : t.position = s.position + 1 := hs.position.trans (by simp)
    rw [if_neg (by omega)]
    exact .same hs (Write.length_of_lt hn) ((carries_length n).yields (Write.length_of_lt hn))
  · have hp : t.position = s.position + 5 := hs.position.trans (by simp)
    rcases Nat.lt_or_ge n longLengthMark with hn | hn
    · -- the short form has been possible
      refine ⟨_, _, hs, Write.length_of_lt hn, (carries_length n).yields (Write.length_of_lt hn),
        by simp, ?_⟩
      rw [if_pos ⟨hp, hn⟩]
      refine iff_of_false (fun he => ?_) (by simp)
      simpa using congrArg List.length he
    · rw [if_neg fun h => absurd h.2 (Nat.not_lt.2 hn)]
      have hw := Write.length_of_le hn hle
      exact .same hs hw ((carries_length n).yields hw)

/-! ## Texts -/

/-- Bytes that stand for a text are the bytes of that text. -/
theorem textBytes_of_fromUTF8? {bs : List UInt8} {text : String}
    (h : String.fromUTF8? bs.toByteArray = some text) : Write.textBytes text = bs := by
  rw [String.fromUTF8?] at h
  split at h
  · cases h
    show bs.toByteArray.data.toList = bs
    simp
  · cases h

theorem respelling_text {text : String} (h : Read.text s = (.ok text, t)) :
    ∃ ds, ofText s = (.ok ds, t) ∧ Respelling Read.text (Write.text text) text s t ds := by
  obtain ⟨n, u, hn, h⟩ := Step.bind_eq_ok h
  obtain ⟨bs, u', hb, h⟩ := Step.bind_eq_ok h
  obtain ⟨ds, hd, hr⟩ := respelling_length hn
  rcases ht : String.fromUTF8? bs.toByteArray with _ | text'
  · rw [ht] at h
    cases h
  · rw [ht] at h
    cases h
    have hbs := textBytes_of_fromUTF8? ht
    have hsize : text.utf8ByteSize = n := by
      rw [← (Read.bytes_eq_ok hb).1, ← hbs]
      rfl
    refine ⟨ds ++ [], ?_, ?_⟩
    · rw [ofText, Step.bind_of_ok hd, List.append_nil]
      exact Step.bind_of_ok hb _
    · rw [Write.text, hsize, hbs]
      exact hr.bind ((respelling_bytes hb).last (by rw [ht]))

end

end PacketRpc
