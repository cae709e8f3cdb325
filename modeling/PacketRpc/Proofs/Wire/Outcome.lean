import PacketRpc.Wire.Reader

/-!
# Outcomes of reads

`Yields x bs o`: wherever an input goes on with `bs`, the read `x` ends with the outcome `o` right
behind `bs`, whatever follows. `Regular x`: each run of `x` ends some bytes further on
(`Regular.spans`), and any outcome but "too few bytes" is yielded by the very bytes that the run has
passed (`Regular.yields`). So such an outcome stays what it is when more input comes
(`Regular.run_append`), and no part of these bytes would have led to it (`Regular.short_of_lt`).

`Composed x`: `x` is made of elementary reads and one read left open, by sequencing. Composed reads
are regular where the open read is (`Composed.regular`), do not tell open reads apart that agree on
all inputs as short as their own (`Composed.congr`), and end with errors of reading only
(`Composed.ofReading_of_error`).
-/

namespace PacketRpc

variable {α β γ : Type}

/-! ## Steps -/

namespace Step

variable {σ : Type}

theorem bind_assoc (x : Step σ α) (f : α → Step σ β) (g : β → Step σ γ) :
    (x >>= f) >>= g = x >>= fun a => f a >>= g := by
  funext s
  rcases hx : x s with ⟨_ | a, t⟩
  · rw [bind_of_error hx, bind_of_error (bind_of_error hx f)]
  · rw [bind_of_ok hx, bind_apply (x >>= f), bind_of_ok hx, bind_apply]

theorem bind_pure (x : Step σ α) : (x >>= fun a => pure a) = x := by
  funext s
  rcases hx : x s with ⟨_ | a, t⟩
  · rw [bind_of_error hx]
  · rw [bind_of_ok hx, pure_apply]

/-- A sequence that has succeeded has done so in both parts. -/
theorem bind_eq_ok {x : Step σ α} {f : α → Step σ β} {s u : σ} {b : β}
    (h : (x >>= f) s = (.ok b, u)) : ∃ a t, x s = (.ok a, t) ∧ f a t = (.ok b, u) := by
  rcases hx : x s with ⟨_ | a, t⟩
  · rw [bind_of_error hx] at h
    cases h
  · exact ⟨a, t, rfl, by rwa [bind_of_ok hx] at h⟩

theorem repeatOnto_apply (x : Step σ α) (n : Nat) (acc : List α) (s : σ) :
    repeatOnto x n acc s = match repeated n x s with
      | (.ok as, t) => (.ok (acc.reverse ++ as), t)
      | (.error e, t) => (.error e, t) := by
  induction n generalizing acc s with
  | zero => simp [repeatOnto, repeated]
  | succ n ih =>
    rcases hx : x s with ⟨_ | a, t⟩
    · simp only [repeatOnto, repeated, hx]
    · simp only [repeatOnto, repeated, hx]
      rw [ih (a :: acc) t, ih [a] t]
      rcases repeated n x t with ⟨_ | as, u⟩ <;> simp

theorem repeated_succ (n : Nat) (x : Step σ α) :
    repeated (n + 1) x = x >>= fun a => repeated n x >>= fun as => pure (a :: as) := by
  funext s
  rcases hx : x s with ⟨_ | a, t⟩
  · rw [bind_of_error hx]
    simp only [repeated, repeatOnto, hx]
  · rw [bind_of_ok hx, bind_apply]
    show repeatOnto x (n + 1) [] s = _
    simp only [repeatOnto, hx]
    rw [repeatOnto_apply]
    rcases repeated n x t with ⟨_ | as, u⟩ <;> rfl

end Step

/-! ## Spans and outcomes -/

/-- `t` stands right behind the bytes `bs` that follow `s`. -/
structure Reader.Spans (s : Reader) (bs : List UInt8) (t : Reader) : Prop where
  rest : s.rest = bs ++ t.rest
  position : t.position = s.position + bs.length

/-- The outcome of a read that needs more bytes than there are. -/
def Short (o : Except ProtocolError α) : Prop :=
  ∃ needed remaining, o = .error (.short needed remaining)

/-- Wherever an input goes on with `bs`, the read ends with `o` right behind `bs`. -/
def Yields (x : Read α) (bs : List UInt8) (o : Except ProtocolError α) : Prop :=
  ∀ n rest, x ⟨n, bs ++ rest⟩ = (o, ⟨n + bs.length, rest⟩)

/-- A read whose outcomes depend on the bytes that it has passed only (module doc). -/
structure Regular (x : Read α) : Prop where
  spans : ∀ {s o t}, x s = (o, t) → ∃ bs, s.Spans bs t
  yields : ∀ {s o t}, x s = (o, t) → ¬ Short o → ∃ bs, s.Spans bs t ∧ Yields x bs o

namespace Reader

theorem Spans.refl (s : Reader) : s.Spans [] s := ⟨rfl, rfl⟩

theorem Spans.trans {s t u : Reader} {bs cs : List UInt8} (h : s.Spans bs t) (k : t.Spans cs u) :
    s.Spans (bs ++ cs) u where
  rest := by rw [h.rest, k.rest, List.append_assoc]
  position := by rw [k.position, h.position, List.length_append, Nat.add_assoc]

theorem Spans.remaining_eq {s t : Reader} {bs : List UInt8} (h : s.Spans bs t) :
    s.remaining = bs.length + t.remaining := by
  rw [remaining, h.rest, List.length_append, remaining]

theorem Spans.remaining_le {s t : Reader} {bs : List UInt8} (h : s.Spans bs t) :
    t.remaining ≤ s.remaining := by
  have := h.remaining_eq
  omega

end Reader

/-! ## Elementary reads -/

theorem Read.bytes_of_le {n : Nat} {s : Reader} (h : n ≤ s.remaining) :
    Read.bytes n s = (.ok (s.rest.take n), s.skip n) := by
  rw [Read.bytes, if_pos ((s.has_iff n).2 h)]

theorem Read.bytes_of_lt {n : Nat} {s : Reader} (h : s.remaining < n) :
    Read.bytes n s = (.error (.short n s.remaining), s) := by
  rw [Read.bytes, if_neg (fun k => Nat.not_le.2 h ((s.has_iff n).1 k))]

/-! ## Short outcomes -/

theorem not_short_ok (a : α) : ¬ Short (.ok a : Except ProtocolError α) := by
  rintro ⟨m, k, h⟩
  cases h

theorem short_error_iff {e : ProtocolError} :
    Short (.error e : Except ProtocolError α) ↔ e.isIncomplete = true := by
  cases e <;> simp [Short, ProtocolError.isIncomplete]

/-- An error ends a sequence of steps as it ends the first of them. -/
theorem short_error_congr {e : ProtocolError} (h : Short (.error e : Except ProtocolError α)) :
    Short (.error e : Except ProtocolError β) :=
  short_error_iff.2 (short_error_iff.1 h)

/-! ## Yielding -/

namespace Yields

theorem done (a : α) : Yields (pure a) [] (.ok a) := fun _ _ => rfl

theorem fail (e : ProtocolError) : Yields (α := α) (Step.fail e) [] (.error e) := fun _ _ => rfl

/-- Reading as many bytes as there are in `bs` gives `bs`. -/
theorem bytes (bs : List UInt8) : Yields (Read.bytes bs.length) bs (.ok bs) := by
  intro n rest
  have h : bs.length ≤ (Reader.mk n (bs ++ rest)).remaining := by
    rw [Reader.remaining, List.length_append]
    omega
  rw [Read.bytes_of_le h, Reader.skip, List.take_left, List.drop_left]

theorem bind {x : Read α} {f : α → Read β} {bs cs : List UInt8} {a : α}
    {o : Except ProtocolError β} (h : Yields x bs (.ok a)) (k : Yields (f a) cs o) :
    Yields (x >>= f) (bs ++ cs) o := by
  intro n rest
  rw [List.append_assoc, Step.bind_of_ok (h n (cs ++ rest)), k, List.length_append, Nat.add_assoc]

theorem bind_error {x : Read α} {bs : List UInt8} {e : ProtocolError}
    (h : Yields x bs (.error e)) (f : α → Read β) : Yields (x >>= f) bs (.error e) :=
  fun n rest => Step.bind_of_error (h n rest) f

/-- No two beginnings of one input yield an outcome. -/
theorem unique {x : Read α} {bs cs r u : List UInt8} {o v : Except ProtocolError α}
    (h : Yields x bs o) (k : Yields x cs v) (he : bs ++ r = cs ++ u) : bs = cs ∧ o = v := by
  have hk := k 0 u
  rw [← he, h 0 r] at hk
  simp only [Nat.zero_add, Prod.mk.injEq, Reader.mk.injEq] at hk
  exact ⟨(List.append_inj he hk.2.1).1, hk.1⟩

/-- Where an input is too short for an outcome, the bytes that yield one are not all there. -/
theorem lt_of_short {x : Read α} {bs cs r u : List UInt8} {o : Except ProtocolError α} {n : Nat}
    (h : Yields x bs o) (ho : ¬ Short o) (hs : Short (x ⟨n, cs⟩).1) (he : bs ++ r = cs ++ u) :
    cs.length < bs.length := by
  apply Classical.byContradiction
  intro hl
  obtain ⟨t, rfl⟩ : bs <+: cs :=
    List.prefix_of_prefix_length_le ⟨r, he⟩ (List.prefix_append cs u) (Nat.not_lt.1 hl)
  rw [h n t] at hs
  exact ho hs

end Yields

/-! ## Regular reads -/

namespace Regular

theorem done (a : α) : Regular (pure a) where
  spans h := by cases h; exact ⟨[], .refl _⟩
  yields h _ := by cases h; exact ⟨[], .refl _, .done a⟩

theorem fail (e : ProtocolError) : Regular (α := α) (Step.fail e) where
  spans h := by cases h; exact ⟨[], .refl _⟩
  yields h _ := by cases h; exact ⟨[], .refl _, .fail e⟩

theorem bytes (n : Nat) : Regular (Read.bytes n) := by
  have skip : ∀ {s : Reader}, n ≤ s.remaining →
      (s.rest.take n).length = n ∧ s.Spans (s.rest.take n) (s.skip n) := by
    intro s hn
    have hl : (s.rest.take n).length = n := List.length_take_of_le hn
    exact ⟨hl, (List.take_append_drop n s.rest).symm, by rw [hl]; rfl⟩
  constructor
  · intro s o t h
    rcases Nat.lt_or_ge s.remaining n with hn | hn
    · rw [Read.bytes_of_lt hn] at h
      cases h
      exact ⟨[], .refl _⟩
    · rw [Read.bytes_of_le hn] at h
      cases h
      exact ⟨_, (skip hn).2⟩
  · intro s o t h hs
    rcases Nat.lt_or_ge s.remaining n with hn | hn
    · rw [Read.bytes_of_lt hn] at h
      cases h
      exact absurd ⟨_, _, rfl⟩ hs
    · rw [Read.bytes_of_le hn] at h
      cases h
      have hy := Yields.bytes (s.rest.take n)
      rw [(skip hn).1] at hy
      exact ⟨_, (skip hn).2, hy⟩

theorem bind {x : Read α} {f : α → Read β} (hx : Regular x) (hf : ∀ a, Regular (f a)) :
    Regular (x >>= f) := by
  constructor
  · intro s o t h
    rcases hxs : x s with ⟨_ | a, u⟩
    · rw [Step.bind_of_error hxs] at h
      cases h
      exact hx.spans hxs
    · rw [Step.bind_of_ok hxs] at h
      obtain ⟨bs, hb⟩ := hx.spans hxs
      obtain ⟨cs, hc⟩ := (hf a).spans h
      exact ⟨bs ++ cs, hb.trans hc⟩
  · intro s o t h hs
    rcases hxs : x s with ⟨e | a, u⟩
    · rw [Step.bind_of_error hxs] at h
      cases h
      obtain ⟨bs, hb, hy⟩ := hx.yields hxs fun k => hs (short_error_congr k)
      exact ⟨bs, hb, hy.bind_error f⟩
    · rw [Step.bind_of_ok hxs] at h
      obtain ⟨bs, hb, hy⟩ := hx.yields hxs (not_short_ok a)
      obtain ⟨cs, hc, hz⟩ := (hf a).yields h hs
      exact ⟨bs ++ cs, hb.trans hc, hy.bind hz⟩

/-- **More input changes nothing** about an outcome that is not short: the read ends as before, and
what has come in addition follows. -/
theorem run_append {x : Read α} (hx : Regular x) {s t : Reader} {o : Except ProtocolError α}
    (h : x s = (o, t)) (ho : ¬ Short o) (more : List UInt8) :
    x ⟨s.position, s.rest ++ more⟩ = (o, ⟨t.position, t.rest ++ more⟩) := by
  obtain ⟨bs, hb, hy⟩ := hx.yields h ho
  rw [hb.rest, List.append_assoc, hy, hb.position]

/-- **No outcome comes early**: where `bs` yields an outcome, anything shorter at the front of the
same input is too short. -/
theorem short_of_lt {x : Read α} (hx : Regular x) {bs cs r u : List UInt8}
    {o : Except ProtocolError α} (hy : Yields x bs o) (he : bs ++ r = cs ++ u)
    (hlt : cs.length < bs.length) (n : Nat) : Short (x ⟨n, cs⟩).1 := by
  apply Classical.byContradiction
  intro hs
  obtain ⟨ds, hd, hz⟩ := hx.yields (s := ⟨n, cs⟩) rfl hs
  have hcs : cs = ds ++ (x ⟨n, cs⟩).2.rest := hd.rest
  obtain ⟨rfl, -⟩ := hy.unique hz (r := r) (u := (x ⟨n, cs⟩).2.rest ++ u) (by
    rw [he, ← List.append_assoc, ← hcs])
  have := congrArg List.length hcs
  rw [List.length_append] at this
  omega

/-- What is too short was too short before more came. -/
theorem short_of_append {x : Read α} (hx : Regular x) {n : Nat} {cs more : List UInt8}
    (h : Short (x ⟨n, cs ++ more⟩).1) : Short (x ⟨n, cs⟩).1 := by
  apply Classical.byContradiction
  intro hs
  rw [hx.run_append (s := ⟨n, cs⟩) rfl hs more] at h
  exact hs h

end Regular

/-! ## Composed reads -/

/-- The errors with which a read can end. -/
def ProtocolError.ofReading : ProtocolError → Bool
  | .short .. | .unknownHash _ | .badEnum .. | .invalidLength _ | .invalidText => true
  | _ => false

/-- Made of elementary reads and the read that is its argument, by sequencing. -/
inductive Composed : {α : Type} → (Read γ → Read α) → Prop
  | done {α : Type} (a : α) : Composed fun _ => pure a
  | fail {α : Type} {e : ProtocolError} (h : e.ofReading = true) :
    Composed (α := α) fun _ => Step.fail e
  | bytes (n : Nat) : Composed fun _ => Read.bytes n
  | given : Composed fun reference => reference
  | bind {α β : Type} {x : Read γ → Read α} {f : α → Read γ → Read β} :
    Composed x → (∀ a, Composed (f a)) →
      Composed fun reference => x reference >>= fun a => f a reference

namespace Composed

variable {x : Read γ → Read α} {reference other : Read γ}

theorem regular (h : Composed x) (hr : Regular reference) : Regular (x reference) := by
  induction h with
  | done a => exact .done a
  | fail _ => exact .fail _
  | bytes n => exact .bytes n
  | given => exact hr
  | bind _ _ ihx ihf => exact ihx.bind ihf

/-- Open reads that agree on all inputs of at most `k` bytes make reads that do. -/
theorem congr (h : Composed x) (hr : Regular reference) {k : Nat}
    (he : ∀ s : Reader, s.remaining ≤ k → reference s = other s) :
    ∀ s : Reader, s.remaining ≤ k → x reference s = x other s := by
  induction h with
  | done a => exact fun _ _ => rfl
  | fail _ => exact fun _ _ => rfl
  | bytes n => exact fun _ _ => rfl
  | given => exact he
  | @bind _ _ x f hx _ ihx ihf =>
    intro s hs
    show (x reference >>= fun a => f a reference) s = (x other >>= fun a => f a other) s
    rcases hxs : x reference s with ⟨e | a, t⟩
    · rw [Step.bind_of_error hxs, Step.bind_of_error ((ihx s hs).symm.trans hxs)]
    · obtain ⟨bs, hb⟩ := (hx.regular hr).spans hxs
      rw [Step.bind_of_ok hxs, Step.bind_of_ok ((ihx s hs).symm.trans hxs)]
      exact ihf a t (Nat.le_trans hb.remaining_le hs)

/-- Where the open read ends with an error of reading, if with any, so does the composed one. -/
theorem ofReading_of_error (h : Composed x) (hr : Regular reference) {k : Nat}
    (he : ∀ {s t : Reader} {e}, s.remaining ≤ k → reference s = (.error e, t) → e.ofReading = true)
    {s t : Reader} {e : ProtocolError} (hs : s.remaining ≤ k) (hx : x reference s = (.error e, t)) :
    e.ofReading = true := by
  induction h generalizing s t with
  | done a => cases hx
  | fail h =>
    cases hx
    exact h
  | bytes n =>
    replace hx : Read.bytes n s = (.error e, t) := hx
    rcases Nat.lt_or_ge s.remaining n with hn | hn
    · rw [Read.bytes_of_lt hn] at hx
      cases hx
      rfl
    · rw [Read.bytes_of_le hn] at hx
      cases hx
  | given => exact he hs hx
  | @bind _ _ x f h _ ihx ihf =>
    replace hx : (x reference >>= fun a => f a reference) s = (.error e, t) := hx
    rcases hxs : x reference s with ⟨_ | a, u⟩
    · rw [Step.bind_of_error hxs] at hx
      cases hx
      exact ihx hs hxs
    · rw [Step.bind_of_ok hxs] at hx
      obtain ⟨bs, hb⟩ := (h.regular hr).spans hxs
      exact ihf a (Nat.le_trans hb.remaining_le hs) hx

/-- The last part of a sequence: its value goes into the result. -/
theorem map (h : Composed x) (f : α → β) :
    Composed fun reference => x reference >>= fun a => pure (f a) :=
  h.bind fun a => .done (f a)

theorem repeated (h : Composed x) (n : Nat) :
    Composed fun reference => Step.repeated n (x reference) := by
  induction n with
  | zero => exact .done []
  | succ n ih =>
    simp only [Step.repeated_succ]
    exact h.bind fun a => ih.map (a :: ·)

/-! ### Numbers, lengths and texts -/

theorem word (width : Nat) : Composed fun _ : Read γ => Read.word width := (bytes width).map _

theorem bool : Composed fun _ : Read γ => Read.bool := (word 1).map _
theorem int8 : Composed fun _ : Read γ => Read.int8 := (word 1).map _
theorem uint8 : Composed fun _ : Read γ => Read.uint8 := (word 1).map _
theorem int16 : Composed fun _ : Read γ => Read.int16 := (word 2).map _
theorem uint16 : Composed fun _ : Read γ => Read.uint16 := (word 2).map _
theorem int32 : Composed fun _ : Read γ => Read.int32 := (word 4).map _
theorem int64 : Composed fun _ : Read γ => Read.int64 := (word 8).map _
theorem float : Composed fun _ : Read γ => Read.float := (word 4).map _
theorem double : Composed fun _ : Read γ => Read.double := (word 8).map _

theorem length : Composed fun _ : Read γ => Read.length := by
  refine uint8.bind fun first => ?_
  split
  · exact .done _
  · refine int32.bind fun n => ?_
    split
    · exact .fail rfl
    · exact .done _

theorem text : Composed fun _ : Read γ => Read.text := by
  refine length.bind fun n => (bytes n).bind fun bs => ?_
  split
  · exact .done _
  · exact .fail rfl

end Composed
end PacketRpc
