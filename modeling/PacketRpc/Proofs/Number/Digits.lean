import PacketRpc.Number.Digits

/-!
# Digits read back

A number that is written out in a radix of at most sixteen has no needless zero in front
(`Digits.exists_digits`), and whatever follows it, as long as that is no digit, its digits are what
is taken from the front of the text (`Digits.leading_digitChars`).
-/

namespace PacketRpc.Digits

variable {radix n : Nat} {ds : List Nat} {rest : List Char}

theorem value?_eq_of_le {c : Char} {d : Nat} (h : value? 16 c = some d) (hd : d < radix)
    (hr : radix ≤ 16) : value? radix c = some d := by
  simp only [value?, Option.ite_none_right_eq_some, Option.some.injEq] at h ⊢
  obtain ⟨-, rfl⟩ := h
  exact ⟨⟨hd, Nat.lt_of_lt_of_le hd hr⟩, rfl⟩

theorem value?_digitChar {d : Nat} (hd : d < radix) (hr : radix ≤ 16) :
    value? radix (Nat.digitChar d) = some d := by
  have digits : ∀ d < 16, value? 16 (Nat.digitChar d) = some d := by decide
  exact value?_eq_of_le (digits d (Nat.lt_of_lt_of_le hd hr)) hd hr

theorem value?_eq_none {c : Char} (h : value? 16 c = none) : value? radix c = none := by
  simp only [value?, ite_eq_right_iff, reduceCtorEq, imp_false] at h ⊢
  omega

theorem number_append_singleton (ds : List Nat) (d : Nat) :
    number radix (ds ++ [d]) = number radix ds * radix + d := by
  rw [number, List.foldl_append]
  rfl

/-- What a number is written with: a first digit, which is zero only if it is alone, and others. -/
theorem exists_digits (hr : 1 < radix) (n : Nat) :
    ∃ d ds, Nat.toDigits radix n = (d :: ds).map Nat.digitChar ∧
      (∀ e ∈ d :: ds, e < radix) ∧ number radix (d :: ds) = n ∧ (d = 0 → ds = []) := by
  induction n using Nat.strongRecOn with
  | ind n ih =>
    rw [Nat.toDigits_eq_if hr]
    split
    · next hn => exact ⟨n, [], rfl, by simpa using hn, by simp [number], fun _ => rfl⟩
    · next hn =>
      have hpos : 0 < n / radix := Nat.div_pos (Nat.le_of_not_lt hn) (by omega)
      obtain ⟨d, ds, hchars, hlt, hnum, hz⟩ := ih (n / radix) (Nat.div_lt_self (by omega) hr)
      refine ⟨d, ds ++ [n % radix], by simp [hchars], ?_, ?_, fun hd => ?_⟩
      · rw [← List.cons_append]
        simp only [List.mem_append, List.mem_singleton]
        rintro e (he | rfl)
        · exact hlt e he
        · exact Nat.mod_lt n (by omega)
      · rw [← List.cons_append, number_append_singleton, hnum]
        exact Nat.div_add_mod' n radix
      · -- a lone zero in front would be all that is left of the number without its last digit
        have hzero : number radix [0] = 0 := by simp [number]
        rw [hz hd, hd, hzero] at hnum
        exact absurd hnum (Nat.ne_of_lt hpos)

theorem isAlphanum_of_mem_toDigits {c : Char} (hr : 1 < radix) (hr' : radix ≤ 16)
    (hc : c ∈ Nat.toDigits radix n) : c.isAlphanum = true := by
  obtain ⟨d, ds, hchars, hlt, -, -⟩ := exists_digits hr n
  have digits : ∀ e < 16, (Nat.digitChar e).isAlphanum = true := by decide
  rw [hchars] at hc
  obtain ⟨e, he, rfl⟩ := List.mem_map.1 hc
  exact digits e (Nat.lt_of_lt_of_le (hlt e he) hr')

/-- Digits are taken up to what is none. -/
theorem leading_digitChars (hr : radix ≤ 16) (hds : ∀ d ∈ ds, d < radix)
    (hrest : ∀ c ∈ rest.head?, value? radix c = none) :
    leading radix (ds.map Nat.digitChar ++ rest) = (ds, rest) := by
  induction ds with
  | nil =>
    rcases rest with _ | ⟨c, cs⟩
    · rfl
    · simp [leading, hrest c rfl]
  | cons d ds ih =>
    have hd := value?_digitChar (hds d List.mem_cons_self) hr
    simp [leading, hd, ih fun e he => hds e (List.mem_cons_of_mem d he)]

theorem whole?_toDigits (h1 : 1 < radix) (h16 : radix ≤ 16) (n : Nat) :
    whole? radix (Nat.toDigits radix n) = some n := by
  obtain ⟨d, ds, hchars, hlt, hnum, -⟩ := exists_digits h1 n
  have hl : leading radix ((d :: ds).map Nat.digitChar ++ []) = (d :: ds, []) :=
    leading_digitChars h16 hlt nofun
  rw [List.append_nil] at hl
  rw [whole?, hchars, hl, ← hnum]

end PacketRpc.Digits
