import PacketRpc.Yaml.Scalar
import PacketRpc.Yaml.Written

/-!
# Scalars of one line

A word begins with a letter or a digit, has no blanks and does not end with a colon
(`Yaml.Word`). It reads back plain, up to a colon that ends a key (`plain_key`) or up to the next
line (`plain_line`). Any visible characters read back from single quotes
(`singleQuoted_doubleQuotes`).
-/

namespace PacketRpc.Yaml

/-! ## Characters -/

theorem ne_of_apart {p : Char → Bool} {c d : Char} (hc : p c = true) (hd : p d = false) : c ≠ d :=
  ne_of_apply_ne p (by simp [hc, hd])

theorem isVisible_of_isAlphanum {c : Char} (h : c.isAlphanum = true) : isVisible c = true := by
  delta Char.isAlphanum Char.isAlpha Char.isUpper Char.isLower Char.isDigit at h
  simp only [Bool.or_eq_true, Bool.and_eq_true, decide_eq_true_eq, ge_iff_le,
    UInt32.le_iff_toNat_le, Char.reduceVal, UInt32.reduceToNat, Char.toNat_val] at h
  simp only [isVisible, Bool.and_eq_true, decide_eq_true_eq]
  omega

section
variable {c : Char} (h : isVisible c = true)
include h

theorem not_isBlank_of_isVisible : isBlank c = false := by
  have ne (d : Char) (hd : isVisible d = false) : c ≠ d := ne_of_apart h hd
  simp [isBlank, ne ' ' rfl, ne '\t' rfl]

theorem not_isBreak_of_isVisible : isBreak c = false := by
  have ne (d : Char) (hd : isVisible d = false) : c ≠ d := ne_of_apart h hd
  simp [isBreak, ne '\n' rfl, ne '\u2028' rfl, ne '\u2029' rfl]

theorem not_endsWord_of_isVisible (cs : List Char) : endsWord (c :: cs) = false := by
  simp [endsWord, not_isBlank_of_isVisible h, not_isBreak_of_isVisible h]

end

theorem not_isDocumentMark {p : Place} (h : 0 < p.column) (cs : List Char) :
    isDocumentMark p cs = false := by
  have hp : (p.column == 0) = false := by simp; omega
  rcases cs with _ | ⟨a, _ | ⟨b, _ | ⟨c, cs⟩⟩⟩ <;> simp [isDocumentMark, hp]

theorem Place.right_right (p : Place) (m n : Nat) : (p.right m).right n = p.right (m + n) := by
  simp [Place.right, Nat.add_assoc]

/-! ## Words -/

/-- A text that can be written plain within a line. -/
structure Word (cs : List Char) : Prop where
  visible : ∀ c ∈ cs, isVisible c = true
  first : ∃ c ∈ cs.head?, c.isAlphanum = true
  last : cs.getLast? ≠ some ':'

variable {cs rest : List Char} {p : Place} {least : Nat}

theorem word_of_isWord (h : isWord cs = true) : Word cs := by
  simp only [isWord, Bool.and_eq_true, List.all_eq_true, Option.any_eq_true, bne_iff_ne] at h
  obtain ⟨⟨visible, first⟩, last⟩ := h
  exact ⟨visible, first, last⟩

/-- What is written plain is a word. -/
theorem word_of_isPlain (h : isPlain cs = true) : Word cs := by
  simp only [isPlain, Bool.and_eq_true] at h
  exact word_of_isWord h.1.1

theorem Word.ne_nil (h : Word cs) : cs ≠ [] := by
  rintro rfl
  obtain ⟨c, hc, -⟩ := h.first
  cases hc

theorem Word.exists_cons (h : Word cs) :
    ∃ c ds, cs = c :: ds ∧ c.isAlphanum = true := by
  obtain ⟨c, hc, ha⟩ := h.first
  obtain ⟨ds, rfl⟩ := List.head?_eq_some_iff.1 hc
  exact ⟨c, ds, rfl, ha⟩

theorem word_of_isAlphanum (h : ∀ c ∈ cs, c.isAlphanum = true) (hne : cs ≠ []) : Word cs where
  visible := fun c hc => isVisible_of_isAlphanum (h c hc)
  first := by
    obtain ⟨c, ds, rfl⟩ := List.exists_cons_of_ne_nil hne
    exact ⟨c, rfl, h c List.mem_cons_self⟩
  last := fun hl => nomatch h ':' (List.mem_of_getLast? hl)

/-- Within a word nothing ends a plain scalar. -/
theorem plain_append (hv : ∀ c ∈ cs, isVisible c = true) (hl : cs.getLast? ≠ some ':')
    (p : Place) (rest : List Char) :
    plain false least .nothing p (cs ++ rest) =
      (plain false least .nothing (p.right cs.length) rest).map fun s =>
        { s with text := cs ++ s.text } := by
  induction cs generalizing p with
  | nil => simp [Place.right]
  | cons c cs ih =>
    -- only a colon before a blank could end the scalar here, and a colon is not the last character
    have hc := hv c List.mem_cons_self
    have hends : endsPlain false (c :: (cs ++ rest)) = false := by
      cases cs with
      | nil =>
        have : c ≠ ':' := by simpa using hl
        simp [endsPlain, this]
      | cons d cs =>
        have hd := hv d (List.mem_cons_of_mem c List.mem_cons_self)
        simp [endsPlain, not_endsWord_of_isVisible hd]
    have hrest : plain false least .nothing (p.right 1) (cs ++ rest) = _ :=
      ih (fun d hd => hv d (List.mem_cons_of_mem c hd))
        (fun h => hl (by rw [List.getLast?_cons, h]; rfl)) (p.right 1)
    rw [List.cons_append, plain, not_isBreak_of_isVisible hc, not_isBlank_of_isVisible hc, hends,
      hrest]
    simp [Gap.isNothing, Gap.text, Place.right_right, Option.map_map, Function.comp_def,
      Nat.add_comm 1]

/-- A key ends at the colon behind it. -/
theorem plain_key (h : Word cs) {ds : List Char} (hd : endsWord ds = true) :
    plain false least .nothing p (cs ++ ':' :: ds) =
      some ⟨cs, false, ⟨p.right cs.length, ':' :: ds⟩⟩ := by
  have hcolon : plain false least .nothing (p.right cs.length) (':' :: ds) =
      some ⟨[], false, ⟨p.right cs.length, ':' :: ds⟩⟩ := by
    simp [plain, isBreak, isBlank, Gap.isNothing, Gap.isBroken, endsPlain, hd]
  rw [plain_append h.visible h.last, hcolon]
  simp

/-- Spaces at the front of a line, which reach no further than to what ends the scalar. -/
theorem plain_spaces {more : List Char} (k : Nat) (hk : p.column + k < least)
    (hc : ∀ c ∈ rest.head?, isVisible c = true) :
    plain false least (.breaks (some '\n') more) p (List.replicate k ' ' ++ rest) =
      some ⟨[], true, ⟨p.right k, rest⟩⟩ := by
  induction k generalizing p with
  | zero =>
    cases rest with
    | nil => rfl
    | cons c cs =>
      have hv := hc c rfl
      have hcol : p.column < least := by simpa using hk
      simp [plain, not_isBreak_of_isVisible hv, not_isBlank_of_isVisible hv, Gap.isNothing,
        Gap.isBroken, endsAfterGap, hcol, Place.right]
  | succ k ih =>
    have hmore := ih (p := p.right 1) (by simp only [Place.right]; omega)
    rw [List.replicate_succ, List.cons_append, plain]
    simp [isBreak, isBlank, Gap.blank, hmore, Place.right_right, Nat.add_comm 1]

/-- A value ends with its line, if the next one is not indented further than the block. -/
theorem plain_line (h : Word cs) (k : Nat) (hk : k < least)
    (hc : ∀ c ∈ rest.head?, isVisible c = true) :
    plain false least .nothing p (cs ++ '\n' :: (List.replicate k ' ' ++ rest)) =
      some ⟨cs, true, ⟨⟨p.line + 1, k⟩, rest⟩⟩ := by
  have hline : plain false least .nothing (p.right cs.length)
      ('\n' :: (List.replicate k ' ' ++ rest)) = some ⟨[], true, ⟨⟨p.line + 1, k⟩, rest⟩⟩ := by
    have hs : plain false least (.breaks (some '\n') []) (p.right cs.length).nextLine
        (List.replicate k ' ' ++ rest) =
        some ⟨[], true, ⟨(p.right cs.length).nextLine.right k, rest⟩⟩ :=
      plain_spaces k (by simpa [Place.nextLine] using hk) hc
    rw [plain, if_pos (by decide), Gap.lineBreak, hs]
    simp [Place.nextLine, Place.right]
  rw [plain_append h.visible h.last, hline]
  simp

/-! ## Quotes -/

/-- What has its quotes doubled ends with the single quote behind it. -/
theorem singleQuoted_doubleQuotes (hv : ∀ c ∈ cs, isVisible c = true) (hp : 0 < p.column)
    (hr : rest.head? ≠ some '\'') :
    ∃ q, singleQuoted .nothing p (doubleQuotes cs ++ '\'' :: rest) = some (cs, ⟨q, rest⟩) := by
  induction cs generalizing p with
  | nil =>
    refine ⟨p.right 1, ?_⟩
    rcases rest with _ | ⟨c, rest⟩
    · rfl
    · have hc : c ≠ '\'' := by simpa using hr
      simp [doubleQuotes, singleQuoted, hc, Gap.text]
  | cons c cs ih =>
    have hvs := fun d hd => hv d (List.mem_cons_of_mem c hd)
    have hc := hv c List.mem_cons_self
    by_cases hq : c = '\''
    · obtain ⟨q, hread⟩ := ih hvs (p := p.right 2) (by simp [Place.right])
      exact ⟨q, by simp [doubleQuotes, hq, singleQuoted, hread, Gap.text]⟩
    · obtain ⟨q, hread⟩ := ih hvs (p := p.right 1) (by simp [Place.right])
      refine ⟨q, ?_⟩
      rw [doubleQuotes, if_neg hq, List.cons_append, singleQuoted.eq_4 _ _ _ _ (by simp [hq]) hq]
      simp [not_isBreak_of_isVisible hc, not_isBlank_of_isVisible hc, not_isDocumentMark hp, hread,
        Gap.text]

end PacketRpc.Yaml
