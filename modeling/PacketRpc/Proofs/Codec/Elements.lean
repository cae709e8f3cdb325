import PacketRpc.Proofs.Codec.Respelling

/-!
# Elements and the bytes behind them

`Takes k x`: a value of the read `x` stands for at least `k` bytes. `Backed size x`: a sequence that
`x` reads stands for more bytes than `size` says of the number of its elements, and where fewer than
that remain behind the length that is declared, `x` ends with an error (`Backed.of_fills`). So a
length alone makes no sequence of elements that take bytes (`Takes.backed`), and none of flags
(`backed_flags`). Of elements that take none it does (`Read.sequence_of_pure`).
-/

namespace PacketRpc

variable {α β : Type}

/-! ## How many bytes a value takes -/

/-- A value of the read stands for at least `k` bytes. -/
def Takes (k : Nat) (x : Read α) : Prop :=
  ∀ ⦃s a t⦄, x s = (.ok a, t) → ∃ bs, s.Spans bs t ∧ k ≤ bs.length

theorem Regular.takes {x : Read α} (h : Regular x) : Takes 0 x := by
  intro s a t hx
  obtain ⟨bs, hs⟩ := h.spans hx
  exact ⟨bs, hs, Nat.zero_le _⟩

namespace Takes

variable {x : Read α} {j k : Nat}

theorem mono (h : Takes k x) (hjk : j ≤ k) : Takes j x := by
  intro s a t hx
  obtain ⟨bs, hs, hl⟩ := h hx
  exact ⟨bs, hs, Nat.le_trans hjk hl⟩

theorem done (a : α) : Takes 0 (pure a) := (Regular.done a).takes

theorem bytes (n : Nat) : Takes n (Read.bytes n) := by
  intro s bs t h
  obtain ⟨hl, hs⟩ := Read.bytes_eq_ok h
  exact ⟨bs, hs, Nat.le_of_eq hl.symm⟩

theorem bind {f : α → Read β} (hx : Takes j x) (hf : ∀ a, Takes k (f a)) :
    Takes (j + k) (x >>= f) := by
  intro s b u h
  obtain ⟨a, t, ha, hb⟩ := Step.bind_eq_ok h
  obtain ⟨bs, hs, hj⟩ := hx ha
  obtain ⟨cs, ht, hk⟩ := hf a hb
  exact ⟨bs ++ cs, hs.trans ht, by rw [List.length_append]; exact Nat.add_le_add hj hk⟩

/-- A change to the value takes no bytes. -/
theorem map (h : Takes k x) (f : α → β) : Takes k (x >>= fun a => pure (f a)) :=
  h.bind fun a => done (f a)

theorem word (width : Nat) : Takes width (Read.word width) := (bytes width).map _

theorem length : Takes 1 Read.length := by
  intro s n t h
  obtain ⟨-, hs⟩ | ⟨-, hs⟩ := Read.length_eq_ok h
  · exact ⟨_, hs, Nat.le_of_eq (BigEndian.length_bytes 1 n).symm⟩
  · exact ⟨_, hs, Nat.succ_pos _⟩

theorem text : Takes 1 Read.text := by
  refine length.bind fun n => Regular.takes ?_
  refine (Regular.bytes n).bind fun bs => ?_
  split
  · exact .done _
  · exact .fail _

theorem member [Enumerated α] : Takes (Enumerated.width α) (Enumerated.read : Read α) := by
  rw [Enumerated.read, Enumerated.readOrdinal_eq_word]
  refine ((word _).map _).bind fun ordinal => Regular.takes ?_
  split
  · exact .done _
  · exact .fail _

/-- Repeated, a read takes its bytes as often as it is repeated. -/
theorem repeated (h : Takes k x) {n : Nat} {s t : Reader} {as : List α}
    (hx : Step.repeated n x s = (.ok as, t)) :
    as.length = n ∧ ∃ bs, s.Spans bs t ∧ k * n ≤ bs.length := by
  induction n generalizing s as with
  | zero =>
    cases hx
    exact ⟨rfl, [], .refl _, Nat.le_refl _⟩
  | succ n ih =>
    rw [Step.repeated_succ] at hx
    obtain ⟨a, u, ha, hx⟩ := Step.bind_eq_ok hx
    obtain ⟨as', v, has, hx⟩ := Step.bind_eq_ok hx
    cases hx
    obtain ⟨bs, hs, hk⟩ := h ha
    obtain ⟨hl, cs, hu, hn⟩ := ih has
    refine ⟨by rw [List.length_cons, hl], bs ++ cs, hs.trans hu, ?_⟩
    rw [List.length_append, Nat.mul_succ, Nat.add_comm]
    exact Nat.add_le_add hk hn

end Takes

/-- A kind of scalar of which every value takes bytes. -/
class NonemptyScalar (α : Type) [Scalar α] : Prop where
  takes : Takes 1 (Scalar.read : Read α)

section
variable {width : Nat} {f : Nat → α}

private theorem takes_number (h : 1 ≤ width) : Takes 1 (Read.word width >>= fun n => pure (f n)) :=
  ((Takes.word width).map f).mono h

end

instance : NonemptyScalar Int8 := ⟨takes_number (by decide)⟩
instance : NonemptyScalar UInt8 := ⟨takes_number (by decide)⟩
instance : NonemptyScalar Int16 := ⟨takes_number (by decide)⟩
instance : NonemptyScalar UInt16 := ⟨takes_number (by decide)⟩
instance : NonemptyScalar Int32 := ⟨takes_number (by decide)⟩
instance : NonemptyScalar Int64 := ⟨takes_number (by decide)⟩
instance : NonemptyScalar Binary32 := ⟨takes_number (by decide)⟩
instance : NonemptyScalar Binary64 := ⟨takes_number (by decide)⟩
instance : NonemptyScalar String := ⟨.text⟩

/-! ## Sequences that bytes stand for -/

/-- A sequence of `n` elements stands for more than `size n` bytes, and is refused where fewer than
that remain behind its length. -/
structure Backed (size : Nat → Nat) (x : Read (List α)) : Prop where
  passed : ∀ ⦃s as t⦄, x s = (.ok as, t) → ∃ bs, s.Spans bs t ∧ size as.length < bs.length
  refused : ∀ ⦃s n t⦄, Read.length s = (.ok n, t) → t.remaining < size n →
    ∃ e u, x s = (.error e, u)

namespace Backed

variable {size smaller : Nat → Nat}

theorem mono {x : Read (List α)} (h : Backed size x) (hle : ∀ n, smaller n ≤ size n) :
    Backed smaller x where
  passed s as t hx := by
    obtain ⟨bs, hs, hl⟩ := h.passed hx
    exact ⟨bs, hs, Nat.lt_of_le_of_lt (hle _) hl⟩
  refused _ n _ hn hr := h.refused hn (Nat.lt_of_lt_of_le hr (hle n))

/-- There is at least the length. -/
theorem takes {x : Read (List α)} (h : Backed size x) : Takes 1 x := by
  intro s as t hx
  obtain ⟨bs, hs, hl⟩ := h.passed hx
  exact ⟨bs, hs, Nat.lt_of_le_of_lt (Nat.zero_le _) hl⟩

/-- What is read behind a length is backed if it is of that length and takes the bytes itself. -/
theorem of_fills {f : Nat → Read (List α)} (hf : ∀ ⦃n s as t⦄, f n s = (.ok as, t) →
    as.length = n ∧ ∃ bs, s.Spans bs t ∧ size n ≤ bs.length) : Backed size (Read.length >>= f) where
  passed s as u h := by
    obtain ⟨n, t, hn, has⟩ := Step.bind_eq_ok h
    obtain ⟨bs, hs, hb⟩ := Takes.length hn
    obtain ⟨rfl, cs, ht, hc⟩ := hf has
    refine ⟨bs ++ cs, hs.trans ht, ?_⟩
    rw [List.length_append]
    omega
  refused s n t hn hr := by
    rw [Step.bind_of_ok hn]
    rcases hx : f n t with ⟨e | as, u⟩
    · exact ⟨e, u, rfl⟩
    · obtain ⟨-, bs, hs, hb⟩ := hf hx
      have := hs.remaining_eq
      omega

end Backed

theorem Takes.backed {x : Read α} {k : Nat} (h : Takes k x) :
    Backed (k * ·) (Read.sequence x) :=
  .of_fills fun _ _ _ _ hx => h.repeated hx

/-- Elements that take bytes are fewer than the bytes. -/
theorem Takes.backed_id {x : Read α} {k : Nat} (h : Takes k x) (hk : 0 < k) :
    Backed id (Read.sequence x) :=
  h.backed.mono fun n => Nat.le_mul_of_pos_left n hk

theorem backed_flags : Backed Flags.byteCount Read.flags := by
  refine .of_fills fun n s fs t h => ?_
  obtain ⟨bs, u, hb, hf⟩ := Step.bind_eq_ok h
  cases hf
  obtain ⟨hl, hs⟩ := Read.bytes_eq_ok hb
  exact ⟨Flags.length_unpack hl, bs, hs, Nat.le_of_eq hl.symm⟩

/-- Elements that take no bytes are as many as the length declares, with nothing behind it. -/
theorem Read.sequence_of_pure (a : α) {s t : Reader} {n : Nat} (h : Read.length s = (.ok n, t)) :
    Read.sequence (pure a) s = (.ok (List.replicate n a), t) := by
  have hr : ∀ k, Step.repeated k (pure a : Read α) = pure (List.replicate k a) := by
    intro k
    induction k with
    | zero => rfl
    | succ k ih =>
      rw [Step.repeated_succ, ih]
      rfl
  rw [Read.sequence, Step.bind_of_ok h, hr]
  rfl

end PacketRpc
