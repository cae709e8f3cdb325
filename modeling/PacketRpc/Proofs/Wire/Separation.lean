import PacketRpc.Proofs.Codec.RoundTrip

/-!
# What is written alike is the same

`Separates w v P`: where one input begins both with what `w` adds and with what `v` adds, they add
the same and `P` holds. Values that one read gives back are separated (`Carries.separates`).
Separation is kept by sequencing, where the second parts count only once the first are told to be
alike (`Separates.bind_of`), and by sequences of any lengths (`Separates.sequence`). So a code can
be uniquely decodable although no read accepts all that is written in it.
-/

namespace PacketRpc

variable {α : Type}

/-- The write only adds bytes, if it succeeds. -/
def Appends (w : Write) : Prop := ∀ ⦃s t⦄, w s = (.ok (), t) → ∃ bs, t = s.append bs

/-- Where one input begins with what either of the writes adds, they add the same and `P` holds. -/
structure Separates (w v : Write) (P : Prop) : Prop where
  left : Appends w
  right : Appends v
  apart : ∀ ⦃s s' bs cs r u⦄, w s = (.ok (), s.append bs) → v s' = (.ok (), s'.append cs) →
    bs ++ r = cs ++ u → bs = cs ∧ P

theorem Writer.append_inj {s : Writer} {bs cs : List UInt8} (h : s.append bs = s.append cs) :
    bs = cs := by
  simpa [← toList_inj] using h

namespace Appends

variable {w v : Write}

theorem done : Appends (pure ()) := by
  intro s t h
  cases h
  exact ⟨[], (Writer.append_nil s).symm⟩

theorem bind (h : Appends w) (k : Appends v) : Appends (w >>= fun _ => v) := by
  intro s u hwv
  obtain ⟨⟨⟩, t, hw, hv⟩ := Step.bind_eq_ok hwv
  obtain ⟨bs, rfl⟩ := h hw
  obtain ⟨cs, rfl⟩ := k hv
  exact ⟨bs ++ cs, Writer.append_append s bs cs⟩

theorem forEach {f : α → Write} {as : List α} (h : ∀ a ∈ as, Appends (f a)) :
    Appends (Step.forEach f as) := by
  induction as with
  | nil => exact done
  | cons a as ih =>
    exact (h a List.mem_cons_self).bind (ih fun b hb => h b (List.mem_cons_of_mem a hb))

end Appends

theorem Carries.appends {w : Write} {x : Read α} {a : α} (h : Carries w x a) : Appends w := by
  intro s t hw
  obtain ⟨bs, ht, -⟩ := h hw
  exact ⟨bs, ht⟩

/-- What one read gives back is told apart by its bytes. -/
theorem Carries.separates {w v : Write} {x : Read α} {a b : α} (h : Carries w x a)
    (k : Carries v x b) : Separates w v (a = b) where
  left := h.appends
  right := k.appends
  apart s s' bs cs r u hw hv he := by
    obtain ⟨bs', hb, hx⟩ := h hw
    obtain ⟨cs', hc, hy⟩ := k hv
    obtain rfl := Writer.append_inj hb
    obtain rfl := Writer.append_inj hc
    obtain ⟨rfl, hab⟩ := hx.unique hy he
    exact ⟨rfl, Except.ok.inj hab⟩

/-- Where one read gives back all values, any two are told apart. -/
theorem separates_of_carries {f : α → Write} {x : Read α} (h : ∀ a, Carries (f a) x a) (a b : α) :
    Separates (f a) (f b) (a = b) :=
  (h a).separates (h b)

theorem separates_scalar [Scalar α] [LawfulScalar α] (a b : α) :
    Separates (Write.scalar a) (Write.scalar b) (a = b) := separates_of_carries carries_scalar a b

theorem separates_scalars [Scalar α] [LawfulScalar α] (as bs : List α) :
    Separates (Write.scalars as) (Write.scalars bs) (as = bs) :=
  separates_of_carries carries_scalars as bs

namespace Separates

variable {w v w' v' : Write} {P Q : Prop}

theorem imp (h : Separates w v P) (hpq : P → Q) : Separates w v Q where
  left := h.left
  right := h.right
  apart s s' bs cs r u hw hv he := by
    obtain ⟨hbc, hp⟩ := h.apart hw hv he
    exact ⟨hbc, hpq hp⟩

theorem symm (h : Separates w v P) : Separates v w P where
  left := h.right
  right := h.left
  apart s s' bs cs r u hv hw he := by
    obtain ⟨hbc, hp⟩ := h.apart hw hv he.symm
    exact ⟨hbc.symm, hp⟩

/-- The second parts need not be separated where the first parts already differ. -/
theorem bind_of (h : Separates w v P) (hw : Appends w') (hv : Appends v')
    (k : P → Separates w' v' Q) : Separates (w >>= fun _ => w') (v >>= fun _ => v') (P ∧ Q) where
  left := h.left.bind hw
  right := h.right.bind hv
  apart s s' bs cs r u hww hvv he := by
    obtain ⟨⟨⟩, t, hs, ht⟩ := Step.bind_eq_ok hww
    obtain ⟨⟨⟩, t', hs', ht'⟩ := Step.bind_eq_ok hvv
    obtain ⟨bs₁, rfl⟩ := h.left hs
    obtain ⟨cs₁, rfl⟩ := h.right hs'
    obtain ⟨bs₂, hb⟩ := hw ht
    obtain ⟨cs₂, hc⟩ := hv ht'
    rw [hb] at ht
    rw [hc] at ht'
    rw [Writer.append_append] at hb hc
    obtain rfl := Writer.append_inj hb
    obtain rfl := Writer.append_inj hc
    rw [List.append_assoc, List.append_assoc] at he
    obtain ⟨rfl, hp⟩ := h.apart hs hs' he
    obtain ⟨rfl, hq⟩ := (k hp).apart ht ht' (List.append_cancel_left he)
    exact ⟨rfl, hp, hq⟩

theorem bind (h : Separates w v P) (k : Separates w' v' Q) :
    Separates (w >>= fun _ => w') (v >>= fun _ => v') (P ∧ Q) :=
  h.bind_of k.left k.right fun _ => k

/-- Two parts that are written one by one and separated as a part of their own. -/
theorem bind_bind {u u' : Write}
    (h : Separates (w >>= fun _ => w') (v >>= fun _ => v') P) (k : Separates u u' Q) :
    Separates (w >>= fun _ => w' >>= fun _ => u) (v >>= fun _ => v' >>= fun _ => u') (P ∧ Q) := by
  rw [← Step.bind_assoc, ← Step.bind_assoc]
  exact h.bind k

/-- Lists of one length are separated when their elements are. -/
theorem forEach {f : α → Write} {as bs : List α} (hl : as.length = bs.length)
    (h : ∀ a ∈ as, ∀ b ∈ bs, Separates (f a) (f b) (a = b)) :
    Separates (Step.forEach f as) (Step.forEach f bs) (as = bs) := by
  induction as generalizing bs with
  | nil =>
    obtain rfl := List.eq_nil_of_length_eq_zero hl.symm
    exact (Carries.done ()).separates (Carries.done ()) |>.imp fun _ => rfl
  | cons a as ih =>
    cases bs with
    | nil => cases hl
    | cons b bs =>
      have htail := ih (Nat.succ.inj hl) fun c hc d hd =>
        h c (List.mem_cons_of_mem a hc) d (List.mem_cons_of_mem b hd)
      refine ((h a List.mem_cons_self b List.mem_cons_self).bind htail).imp ?_
      rintro ⟨rfl, rfl⟩
      rfl

/-- Sequences are separated when their elements are: their lengths come first. -/
theorem sequence {f : α → Write} {as bs : List α} (ha : ∀ a ∈ as, Appends (f a))
    (hb : ∀ b ∈ bs, Appends (f b)) (h : ∀ a ∈ as, ∀ b ∈ bs, Separates (f a) (f b) (a = b)) :
    Separates (Write.sequence f as) (Write.sequence f bs) (as = bs) := by
  have lengths := separates_of_carries carries_length as.length bs.length
  exact (lengths.bind_of (.forEach ha) (.forEach hb) fun hl => forEach hl h).imp And.right

end Separates
end PacketRpc
