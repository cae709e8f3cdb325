import PacketRpc.Proofs.Wire.Outcome

/-!
# Where short reads leave the reader

`StaysAt x s`: if the read `x` finds too few bytes at `s`, it leaves the reader at `s`. Elementary
reads look before they take, so they stay everywhere (`StaysAt.bytes`, `StaysAt.map`). Lengths and
texts are read in parts, and a part that has been read is not given back: a length whose mark is
followed by fewer than four bytes ends behind the mark (`Read.length_of_cut`), and a text that is
cut ends where its length does (`Read.text_of_short`). So neither of the two stays unless no byte
remains at all (`Read.stays_where`, `Read.length_moves`).
-/

namespace PacketRpc

variable {α β : Type} {s : Reader}

/-- Where the read finds too few bytes at `s`, it leaves the reader there. -/
def StaysAt (x : Read α) (s : Reader) : Prop := Short (x s).1 → (x s).2 = s

/-! ## Elementary reads -/

namespace StaysAt

theorem bytes (n : Nat) (s : Reader) : StaysAt (Read.bytes n) s := by
  intro h
  rcases Nat.lt_or_ge s.remaining n with hn | hn
  · rw [Read.bytes_of_lt hn]
  · rw [Read.bytes_of_le hn] at h
    exact absurd h (not_short_ok _)

/-- Nothing is read by changing a value. -/
theorem map {x : Read α} (hx : StaysAt x s) (f : α → β) :
    StaysAt (x >>= fun a => pure (f a)) s := by
  intro h
  rcases hxs : x s with ⟨e | a, t⟩
  · rw [Step.bind_of_error hxs] at h ⊢
    have ht := hx (by rw [hxs]; exact short_error_congr h)
    rwa [hxs] at ht
  · rw [Step.bind_of_ok hxs] at h
    exact absurd h (not_short_ok _)

theorem word (width : Nat) (s : Reader) : StaysAt (Read.word width) s := (bytes width s).map _

end StaysAt

/-! ## Lengths -/

namespace Read

variable {b : UInt8} {bs : List UInt8}

theorem word_of_lt (width : Nat) (h : s.remaining < width) :
    word width s = (.error (.short width s.remaining), s) :=
  Step.bind_of_error (bytes_of_lt h) _

theorem uint8_of_nil (h : s.rest = []) : uint8 s = (.error (.short 1 0), s) := by
  have hr : s.remaining = 0 := by rw [Reader.remaining, h, List.length_nil]
  have hw := word_of_lt 1 (s := s) (by omega)
  rw [hr] at hw
  exact Step.bind_of_error hw _

theorem uint8_of_cons (h : s.rest = b :: bs) : uint8 s = (.ok b, s.skip 1) := by
  have hr : 1 ≤ s.remaining := by rw [Reader.remaining, h]; exact Nat.succ_pos _
  have hb : bytes 1 s = (.ok [b], s.skip 1) := by rw [bytes_of_le hr, h]; rfl
  have hv : UInt8.ofNat (BigEndian.value [b]) = b := by
    rw [BigEndian.value_cons, BigEndian.value_nil]
    simp [BigEndian.limit]
  rw [uint8, Step.bind_of_ok (Step.bind_of_ok hb _), Step.pure_apply, hv]

/-- Where no byte remains, the length lacks its first. -/
theorem length_of_nil (h : s.rest = []) : length s = (.error (.short 1 0), s) :=
  Step.bind_of_error (uint8_of_nil h) _

theorem length_of_cons (h : s.rest = b :: bs) (hb : b ≠ 255) :
    length s = (.ok b.toNat, s.skip 1) := by
  rw [length, Step.bind_of_ok (uint8_of_cons h), if_pos hb]
  rfl

/-- The mark is gone where the four bytes behind it are not all there. -/
theorem length_of_cut (h : s.rest = 255 :: bs) (hl : bs.length < 4) :
    length s = (.error (.short 4 bs.length), s.skip 1) := by
  have hr : (s.skip 1).remaining = bs.length := by
    rw [Reader.remaining, Reader.skip, h, List.drop_one, List.tail_cons]
  have hw := word_of_lt 4 (s := s.skip 1) (by omega)
  rw [hr] at hw
  rw [length, Step.bind_of_ok (uint8_of_cons h), if_neg (by simp)]
  exact Step.bind_of_error (Step.bind_of_error hw _) _

/-- The four bytes behind the mark are a signed number: the length, unless it is negative. -/
theorem length_of_word {v : Int32} (h : s.rest = 255 :: bs) (hl : 4 ≤ bs.length)
    (hv : (UInt32.ofNat (BigEndian.value (bs.take 4))).toInt32 = v) :
    length s = (if v < 0 then .error (.invalidLength v) else .ok v.toNatClampNeg, s.skip 5) := by
  have hr : 4 ≤ (s.skip 1).remaining := by
    rw [Reader.remaining, Reader.skip, h, List.drop_one, List.tail_cons]
    exact hl
  have hb : bytes 4 (s.skip 1) = (.ok (bs.take 4), s.skip 5) := by
    rw [bytes_of_le hr]
    simp [Reader.skip, h]
  have hw : int32 (s.skip 1) = (.ok v, s.skip 5) :=
    hv ▸ Step.bind_of_ok (Step.bind_of_ok hb _) _
  rw [length, Step.bind_of_ok (uint8_of_cons h), if_neg (by simp), Step.bind_of_ok hw]
  split
  · rfl
  · rfl

/-- With four bytes behind it, the mark leads to a length or to an error of its own. -/
theorem length_of_mark (h : s.rest = 255 :: bs) (hl : 4 ≤ bs.length) :
    ∃ o, length s = (o, s.skip 5) ∧ ¬ Short o := by
  refine ⟨_, length_of_word h hl rfl, ?_⟩
  split
  · exact fun hs => by cases short_error_iff.1 hs
  · exact not_short_ok _

/-- A length is short before its first byte or behind its mark, and nowhere else. -/
theorem short_length_iff (s : Reader) : Short (length s).1 ↔
    s.rest = [] ∨ ∃ bs, s.rest = 255 :: bs ∧ bs.length < 4 := by
  constructor
  · intro hs
    rcases hr : s.rest with _ | ⟨b, bs⟩
    · exact .inl rfl
    · by_cases hb : b = 255
      · subst hb
        refine .inr ⟨bs, rfl, Nat.lt_of_not_le fun hl => ?_⟩
        obtain ⟨o, ho, hn⟩ := length_of_mark hr hl
        exact hn (by rwa [ho] at hs)
      · rw [length_of_cons hr hb] at hs
        exact absurd hs (not_short_ok _)
  · rintro (h | ⟨bs, h, hl⟩)
    · rw [length_of_nil h]
      exact ⟨_, _, rfl⟩
    · rw [length_of_cut h hl]
      exact ⟨_, _, rfl⟩

/-! ## Texts -/

/-- A text that is short ends where its length ends. -/
theorem text_of_short (h : Short (text s).1) : (text s).2 = (length s).2 := by
  rcases hl : length s with ⟨e | n, t⟩
  · rw [text, Step.bind_of_error hl]
  · rcases Nat.lt_or_ge t.remaining n with hn | hn
    · rw [text, Step.bind_of_ok hl, Step.bind_of_error (bytes_of_lt hn)]
    · rw [text, Step.bind_of_ok hl, Step.bind_of_ok (bytes_of_le hn)] at h
      rcases hu : String.fromUTF8? (t.rest.take n).toByteArray with _ | v
      · rw [hu] at h
        cases short_error_iff.1 h
      · rw [hu] at h
        exact absurd h (not_short_ok v)

/-- A first byte that is there is taken, whatever comes of the length. -/
theorem length_ne_self (h : s.rest ≠ []) : (length s).2 ≠ s := by
  have moved (n : Nat) (hn : 0 < n) : s.skip n ≠ s := fun he =>
    Nat.ne_of_gt (Nat.lt_add_of_pos_right hn) (congrArg Reader.position he)
  obtain ⟨b, bs, hr⟩ := List.exists_cons_of_ne_nil h
  by_cases hb : b = 255
  · subst hb
    rcases Nat.lt_or_ge bs.length 4 with hl | hl
    · rw [length_of_cut hr hl]
      exact moved 1 Nat.one_pos
    · obtain ⟨o, ho, -⟩ := length_of_mark hr hl
      rw [ho]
      exact moved 5 (by decide)
  · rw [length_of_cons hr hb]
    exact moved 1 Nat.one_pos

/-! ## All reads -/

/-- **Where a read that finds too few bytes leaves the reader.** Numbers, booleans and bytes as they
are stay where they are. A length stays unless it is cut behind its mark, which it then has passed;
a text that is short stays only where no byte remains, and is otherwise left behind its length. -/
theorem stays_where (s : Reader) :
    (StaysAt bool s ∧ StaysAt int8 s ∧ StaysAt uint8 s ∧ StaysAt int16 s ∧ StaysAt uint16 s ∧
      StaysAt int32 s ∧ StaysAt int64 s ∧ StaysAt float s ∧ StaysAt double s ∧
      ∀ n, StaysAt (bytes n) s) ∧
    (StaysAt length s ↔ ∀ bs, s.rest = 255 :: bs → 4 ≤ bs.length) ∧
    (∀ bs, s.rest = 255 :: bs → bs.length < 4 →
      length s = (.error (.short 4 bs.length), s.skip 1)) ∧
    (StaysAt text s ↔ (Short (text s).1 → s.rest = [])) ∧
    (Short (text s).1 → (text s).2 = (length s).2) := by
  have word (width : Nat) := StaysAt.word width s
  refine ⟨⟨(word 1).map _, (word 1).map _, (word 1).map _, (word 2).map _, (word 2).map _,
    (word 4).map _, (word 8).map _, (word 4).map _, (word 8).map _, fun n => .bytes n s⟩,
    ⟨?lengthStays, ?lengthMoves⟩, fun bs => length_of_cut, ⟨?textStays, ?textMoves⟩, text_of_short⟩
  case lengthStays =>
    intro h bs hr
    refine Nat.le_of_not_lt fun hl => length_ne_self (by rw [hr]; exact List.cons_ne_nil _ _) ?_
    exact h ((short_length_iff s).2 (.inr ⟨bs, hr, hl⟩))
  case lengthMoves =>
    intro h hs
    obtain hr | ⟨bs, hr, hl⟩ := (short_length_iff s).1 hs
    · rw [length_of_nil hr]
    · exact absurd (h bs hr) (Nat.not_le.2 hl)
  case textStays =>
    intro h hs
    refine Classical.byContradiction fun hr => length_ne_self hr ?_
    rw [← text_of_short hs, h hs]
  case textMoves =>
    intro h hs
    rw [text_of_short hs, length_of_nil (h hs)]

/-- A mark with one byte behind it is passed by a length that is short, which then finds that byte a
length; a text of five bytes of which one has come is short behind its length. -/
theorem length_moves :
    let s := Reader.start [0xFF, 0x80]
    let t := Reader.start [5, 0x61]
    length s = (.error (.short 4 1), s.skip 1) ∧ ¬ StaysAt length s ∧
      length (s.skip 1) = (.ok 128, s.skip 2) ∧
      text t = (.error (.short 5 1), t.skip 1) ∧ ¬ StaysAt text t := by
  intro s t
  have hr : s.rest = 255 :: [0x80] := rfl
  have hs : length s = (.error (.short 4 1), s.skip 1) := length_of_cut hr (by decide)
  have ht : text t = (.error (.short 5 1), t.skip 1) :=
    (Step.bind_of_ok (length_of_cons (b := 5) rfl (by decide)) _).trans <|
      Step.bind_of_error (bytes_of_lt (by decide)) _
  refine ⟨hs, fun h => ?_, length_of_cons (b := 0x80) rfl (by decide), ht, fun h => ?_⟩
  · have hl := h (by rw [hs]; exact ⟨_, _, rfl⟩)
    exact length_ne_self (List.cons_ne_nil _ _) hl
  · have hl := h (by rw [ht]; exact ⟨_, _, rfl⟩)
    rw [ht] at hl
    exact Nat.succ_ne_self 0 (congrArg Reader.position hl)

end Read
end PacketRpc
