import PacketRpc.Proofs.Wire.Length
import PacketRpc.Proofs.Wire.Truncation

/-!
# The grammar of lengths

What an input has to begin with for a length to be read from it is said here byte by byte:
`LengthAhead input n k` is a length `n` in the first `k` bytes, which are one of its forms
(`LengthAhead.exists_form`), and `NegativeAhead input v` is a mark with the negative number `v`
behind it. An input begins with one of them unless it ends before (`ahead_or_cut`), and the length is
read as the input begins (`LengthAhead.read`, `NegativeAhead.read`). So these are the inputs where
reading succeeds or finds a negative number, and on all others it finds too few bytes
(`length_grammar`).
-/

namespace PacketRpc

/-- The number in four bytes, the most significant first. -/
def BigEndian.ofFour (a b c d : UInt8) : Nat :=
  ((a.toNat * 256 + b.toNat) * 256 + c.toNat) * 256 + d.toNat

open BigEndian (ofFour)

/-- The first `k` bytes of the input are the length `n`: one byte below the mark, or the mark and the
four bytes of a number that is not negative as a signed one. -/
inductive LengthAhead : (input : List UInt8) → (n k : Nat) → Prop
  | short {first : UInt8} (rest : List UInt8) (h : first.toNat < 255) :
    LengthAhead (first :: rest) first.toNat 1
  | long {a b c d : UInt8} (rest : List UInt8) (h : ofFour a b c d ≤ 2147483647) :
    LengthAhead (255 :: a :: b :: c :: d :: rest) (ofFour a b c d) 5

/-- The input begins with the mark and the four bytes of the negative number `v`, in two's
complement. -/
inductive NegativeAhead : (input : List UInt8) → (v : Int32) → Prop
  | intro {a b c d : UInt8} {v : Int32} (rest : List UInt8) (h : 2147483647 < ofFour a b c d)
    (hv : v.toInt = (ofFour a b c d : Int) - 4294967296) :
    NegativeAhead (255 :: a :: b :: c :: d :: rest) v

variable {input : List UInt8} {n k : Nat} {v : Int32} {s : Reader}

/-! ## Four bytes -/

namespace BigEndian

theorem value_four (a b c d : UInt8) : value [a, b, c, d] = ofFour a b c d := by
  simp only [value, valueFrom, List.foldl_cons, List.foldl_nil, ofFour]
  omega

theorem bytes_ofFour (a b c d : UInt8) : bytes 4 (ofFour a b c d) = [a, b, c, d] := by
  rw [← value_four]
  exact bytes_value [a, b, c, d]

theorem ofFour_lt (a b c d : UInt8) : ofFour a b c d < 4294967296 := by
  rw [← value_four]
  exact value_lt [a, b, c, d]

end BigEndian

/-! ## What is ahead -/

/-- An input begins with a length or a negative number, unless it ends before. -/
theorem ahead_or_cut (input : List UInt8) :
    (∃ n k, LengthAhead input n k) ∨ (∃ v, NegativeAhead input v) ∨
      input = [] ∨ ∃ bs, input = 255 :: bs ∧ bs.length < 4 := by
  match input with
  | [] => exact .inr (.inr (.inl rfl))
  | first :: bs =>
    by_cases hf : first = 255
    · subst hf
      match bs with
      | a :: b :: c :: d :: rest =>
        -- the four bytes are there, and are negative from half of their range on
        rcases Nat.lt_or_ge 2147483647 (ofFour a b c d) with hn | hn
        · have hv := toInt_word_of_le (BigEndian.ofFour_lt a b c d) hn
          exact .inr (.inl ⟨_, .intro rest hn hv⟩)
        · exact .inl ⟨_, _, .long rest hn⟩
      | [] | [_] | [_, _] | [_, _, _] =>
        exact .inr (.inr (.inr ⟨_, rfl, by simp⟩))
    · have hne : first.toNat ≠ 255 := fun h => hf (UInt8.toNat_inj.1 h)
      have hlt := first.toNat_lt
      exact .inl ⟨_, _, .short bs (by omega)⟩

theorem LengthAhead.exists_form (h : LengthAhead input n k) :
    ∃ form rest, LengthForm n form ∧ form.length = k ∧ input = form ++ rest := by
  cases h with
  | @short first rest hf =>
    refine ⟨_, rest, .short hf, rfl, ?_⟩
    rw [UInt8.ofNat_toNat, List.singleton_append]
  | @long a b c d rest hn =>
    refine ⟨_, rest, .long hn, rfl, ?_⟩
    rw [BigEndian.bytes_ofFour]
    rfl

theorem LengthAhead.read (h : LengthAhead input n k) (hs : s.rest = input) :
    Read.length s = (.ok n, s.skip k) := by
  obtain ⟨form, rest, hform, rfl, rfl⟩ := h.exists_form
  have hy := hform.yields s.position rest
  rw [← hs] at hy
  rw [hy, Reader.skip, hs, List.drop_left]

theorem NegativeAhead.read (h : NegativeAhead input v) (hs : s.rest = input) :
    Read.length s = (.error (.invalidLength v), s.skip 5) := by
  cases h with
  | @intro a b c d _ rest hn hv =>
    have hlt := BigEndian.ofFour_lt a b c d
    -- no other signed number has this value
    have hword : (UInt32.ofNat (BigEndian.value [a, b, c, d])).toInt32 = v := by
      rw [BigEndian.value_four, ← Int32.toInt_inj, hv]
      exact toInt_word_of_le hlt hn
    have hneg : v < 0 := by
      rw [Int32.lt_iff_toInt_lt, hv]
      exact Int.sub_neg_of_lt (Int.ofNat_lt.2 hlt)
    rw [Read.length_of_word hs (by simp) hword, if_pos hneg]

namespace Read

theorem ahead_or_short (s : Reader) :
    (∃ n k, LengthAhead s.rest n k) ∨ (∃ v, NegativeAhead s.rest v) ∨ Short (length s).1 :=
  (ahead_or_cut s.rest).imp_right (Or.imp_right (short_length_iff s).2)

theorem length_eq_ok_iff : length s = (.ok n, s.skip k) ↔ LengthAhead s.rest n k := by
  refine ⟨fun h => ?_, fun h => h.read rfl⟩
  obtain ⟨m, j, ha⟩ | ⟨v, ha⟩ | hs := ahead_or_short s
  · obtain ⟨hm, hj⟩ := Prod.mk.inj ((ha.read rfl).symm.trans h)
    obtain rfl : m = n := Except.ok.inj hm
    -- the position tells how many bytes have been passed
    obtain rfl : j = k := Nat.add_left_cancel (congrArg Reader.position hj)
    exact ha
  · cases congrArg Prod.fst ((ha.read rfl).symm.trans h)
  · rw [h] at hs
    exact absurd hs (not_short_ok n)

theorem length_eq_invalid_iff :
    (length s).1 = .error (.invalidLength v) ↔ NegativeAhead s.rest v := by
  refine ⟨fun h => ?_, fun h => congrArg Prod.fst (h.read rfl)⟩
  obtain ⟨n, k, ha⟩ | ⟨u, ha⟩ | hs := ahead_or_short s
  · rw [ha.read rfl] at h
    cases h
  · rw [ha.read rfl] at h
    cases h
    exact ha
  · rw [h] at hs
    cases short_error_iff.1 hs

theorem short_length_iff_not_ahead : Short (length s).1 ↔
    (∀ n k, ¬ LengthAhead s.rest n k) ∧ ∀ v, ¬ NegativeAhead s.rest v := by
  constructor
  · intro hs
    refine ⟨fun n k ha => ?_, fun v ha => ?_⟩
    · rw [ha.read rfl] at hs
      exact not_short_ok n hs
    · rw [ha.read rfl] at hs
      cases short_error_iff.1 hs
  · rintro ⟨hlength, hnegative⟩
    obtain ⟨n, k, ha⟩ | ⟨v, ha⟩ | hs := ahead_or_short s
    · exact absurd ha (hlength n k)
    · exact absurd ha (hnegative v)
    · exact hs

end Read

/-! ## Reading and writing -/

/-- **The grammar of lengths.** A length is written in one byte below 255 and in five from there on,
and is read back from them, whatever follows; only above the greatest signed 32-bit number it is not
written, and then the writer stays as it is. On any input, reading gives a length and passes over its
bytes if and only if the input begins with it, in either of its forms; it finds a negative number if
and only if there is one behind the mark; and it finds too few bytes in all other cases. -/
theorem length_grammar :
    (∀ n w, Write.length n w = (.error (.lengthOverflow n), w) ↔ 2147483647 < n) ∧
    (∀ n ≤ 2147483647, ∃ bs, (∀ w, Write.length n w = (.ok (), w.append bs)) ∧
      bs.length = (if n < 255 then 1 else 5) ∧ Yields Read.length bs (.ok n)) ∧
    ∀ s : Reader,
      (∀ n k, Read.length s = (.ok n, s.skip k) ↔ LengthAhead s.rest n k) ∧
      (∀ v, (Read.length s).1 = .error (.invalidLength v) ↔ NegativeAhead s.rest v) ∧
      (Short (Read.length s).1 ↔
        (∀ n k, ¬ LengthAhead s.rest n k) ∧ ∀ v, ¬ NegativeAhead s.rest v) := by
  refine ⟨fun n w => ⟨fun h => ?fits, fun h => ?overflows⟩, fun n hn => ?writes, fun s =>
    ⟨fun n k => Read.length_eq_ok_iff, fun v => Read.length_eq_invalid_iff,
      Read.short_length_iff_not_ahead⟩⟩
  case fits =>
    refine Nat.lt_of_not_le fun hn => ?_
    rw [Write.length_eq hn] at h
    cases congrArg Prod.fst h
  case overflows => exact Write.length_of_gt h w
  case writes =>
    have hw := Write.length_eq hn
    exact ⟨lengthBytes n, hw, length_lengthBytes n, (carries_length n).yields hw⟩

/-- The length 300 takes five bytes. The length 5 is read from five bytes too, and -2 is refused. -/
theorem length_grammar_overlong :
    300 ≤ 2147483647 ∧
    (∃ bs, (∀ w, Write.length 300 w = (.ok (), w.append bs)) ∧ bs.length = 5 ∧
      Yields Read.length bs (.ok 300)) ∧
    Read.length (.start [255, 0, 0, 0, 5, 7]) = (.ok 5, ⟨5, [7]⟩) ∧
    (Read.length (.start [255, 255, 255, 255, 254])).1 = .error (.invalidLength (-2)) := by
  have hn : 300 ≤ 2147483647 := by decide
  obtain ⟨bs, hw, hl, hy⟩ := length_grammar.2.1 300 hn
  refine ⟨hn, ⟨bs, hw, hl, hy⟩, ?_, ?_⟩
  · exact ((length_grammar.2.2 (.start [255, 0, 0, 0, 5, 7])).1 5 5).2 (.long [7] (by decide))
  · exact ((length_grammar.2.2 (.start [255, 255, 255, 255, 254])).2.1 (-2)).2
      (.intro [] (by decide) (by decide))

end PacketRpc
