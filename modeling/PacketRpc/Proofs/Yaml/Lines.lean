import PacketRpc.Yaml.Token
import PacketRpc.Proofs.Yaml.Scalar

/-!
# Lines of entries

A mapping of mappings is written with one line for each key: sections, and indented under them the
entries with their scalars. This module reads such lines (`Yaml.tokens_of_sections`): each line of
an entry makes four tokens (`Ahead.entry`), and collections begin and end where the column of a line
says so. A reader ahead of a line (`Ahead`) is described without saying where exactly it stands,
because a plain scalar is read up to the next line and a quoted one only up to its quote.
-/

namespace PacketRpc.Yaml

/-! ## Entries and sections -/

/-- A key with a scalar. -/
structure Entry where
  key : List Char
  isQuoted : Bool
  value : List Char

/-- A key with entries. -/
structure Section where
  key : List Char
  entries : List Entry

namespace Entry

def style (e : Entry) : Style := if e.isQuoted then .quoted else .plain

/-- The scalar as it is written. -/
def scalar (e : Entry) : List Char :=
  if e.isQuoted then '\'' :: (doubleQuotes e.value ++ ['\'']) else e.value

/-- The line of an entry, without the blanks in front of it. -/
def line (e : Entry) : List Char := e.key ++ ':' :: ' ' :: (e.scalar ++ ['\n'])

def tokens (e : Entry) : List Token :=
  [.key, .scalar .plain e.key, .value, .scalar e.style e.value]

/-- An entry whose line reads back. -/
structure Legible (e : Entry) : Prop where
  key : Word e.key
  width : e.key.length ≤ keyWidth
  plain : e.isQuoted = false → Word e.value
  quoted : ∀ c ∈ e.value, isVisible c = true

end Entry

namespace Section

def lines (s : Section) : List Char :=
  s.key ++ ':' :: '\n' :: s.entries.flatMap fun e => List.replicate 2 ' ' ++ e.line

def tokens (s : Section) : List Token :=
  .key :: .scalar .plain s.key :: .value :: .blockMapping ::
    (s.entries.flatMap Entry.tokens ++ [.blockEnd])

/-- A section whose lines read back. -/
structure Legible (s : Section) : Prop where
  key : Word s.key
  width : s.key.length ≤ keyWidth
  nonempty : s.entries ≠ []
  entries : ∀ e ∈ s.entries, e.Legible

end Section

namespace TokenReader

/-- A reader in block style, without a candidate for a key. -/
def inBlock (tokens : List Token) (columns : List Nat) (keyAllowed : Bool) (cursor : Cursor) :
    TokenReader := { cursor, tokens, columns, keyAllowed }

variable {tokens : List Token} {columns : List Nat} {keyAllowed : Bool} {cursor : Cursor}

/-- Between tokens, a reader in block style moves over the gap and ends collections. -/
theorem toToken?_inBlock {a : Bool} {d : Cursor}
    (hs : skipGap false false keyAllowed cursor.place cursor.rest = (a, d)) :
    (inBlock tokens columns keyAllowed cursor).toToken? =
      some (inBlock (closeBeyond d.place.column tokens columns).1
        (closeBeyond d.place.column tokens columns).2 a d) := by
  simp only [toToken?, inBlock, inFlow, List.isEmpty_nil, Bool.not_true, hs, dropLost?, kept?,
    List.mapM_nil, Option.pure_def, Option.bind_eq_bind, Option.bind_some, closeBlocks,
    Bool.false_eq_true, if_false, column]

theorem closeBeyond_of_le {n : Nat} (h : ∀ m ∈ columns.head?, m ≤ n) :
    closeBeyond n tokens columns = (tokens, columns) := by
  cases columns with
  | nil => rfl
  | cons m ms => rw [closeBeyond, if_neg (Nat.not_lt.2 (h m rfl))]

/-- What is visible stops a gap, unless it is a comment. -/
theorem skipGap_of_visible {c : Char} (hc : isVisible c = true) (hh : c ≠ '#') (a : Bool)
    (p : Place) (cs : List Char) : skipGap false false a p (c :: cs) = (a, ⟨p, c :: cs⟩) := by
  have hblank := not_isBlank_of_isVisible hc
  simp only [isBlank, Bool.or_eq_false_iff, beq_eq_false_iff_ne] at hblank
  have hmark : c ≠ '\uFEFF' := ne_of_apart hc rfl
  simp [skipGap, not_isBreak_of_isVisible hc, hh, hblank, hmark]

/-- What is read next, or the end of the text. -/
def BeginsVisibly (rest : List Char) : Prop := ∀ c ∈ rest.head?, isVisible c = true ∧ c ≠ '#'

theorem skipGap_of_beginsVisibly {rest : List Char} (hr : BeginsVisibly rest) (a : Bool)
    (p : Place) : skipGap false false a p rest = (a, ⟨p, rest⟩) := by
  cases rest with
  | nil => rfl
  | cons c cs => exact skipGap_of_visible (hr c rfl).1 (hr c rfl).2 a p cs

theorem skipGap_line {rest : List Char} (hr : BeginsVisibly rest) (k : Nat) (p : Place) :
    skipGap false false false p ('\n' :: (List.replicate k ' ' ++ rest)) =
      (true, ⟨⟨p.line + 1, k⟩, rest⟩) := by
  have hspaces (p : Place) : skipGap false false true p (List.replicate k ' ' ++ rest) =
      (true, ⟨p.right k, rest⟩) := by
    induction k generalizing p with
    | zero => exact skipGap_of_beginsVisibly hr true p
    | succ k ih =>
      rw [List.replicate_succ, List.cons_append, skipGap]
      simp [isBreak, ih, Place.right_right, Nat.add_comm 1]
  have hline : p.nextLine.right k = ⟨p.line + 1, k⟩ := by simp [Place.nextLine, Place.right]
  rw [skipGap, if_pos (by decide), Bool.not_false, Bool.or_true, hspaces, hline]

/-! ## Keys -/

/-- The tokens and the columns where a key begins in a column: collections right of it have ended,
and one has begun there. -/
def levelled (column : Nat) (tokens : List Token) (columns : List Nat) : List Token × List Nat :=
  let (tokens, columns) := closeBeyond column tokens columns
  if columns.head? = some column then (tokens, columns)
  else (.blockMapping :: tokens, column :: columns)

theorem closeBeyond_head_le (n : Nat) (tokens : List Token) (columns : List Nat) :
    ∀ m ∈ (closeBeyond n tokens columns).2.head?, m ≤ n := by
  induction columns generalizing tokens with
  | nil => exact nofun
  | cons m ms ih =>
    rw [closeBeyond]
    split
    · exact ih _
    · next h =>
      rintro _ ⟨⟩
      exact Nat.not_lt.1 h

theorem levelled_head (n : Nat) (tokens : List Token) (columns : List Nat) :
    (levelled n tokens columns).2.head? = some n := by
  simp only [levelled]
  split
  · assumption
  · rfl

theorem token?_of_isAlphanum (r : TokenReader) {c : Char} (ha : c.isAlphanum = true)
    (cs : List Char) : r.token? c cs = r.plain? := by
  have ne (d : Char) (hd : d.isAlphanum = false) : c ≠ d := ne_of_apart ha hd
  have hv := isVisible_of_isAlphanum ha
  have hmark : isDocumentMark r.cursor.place (c :: cs) = false := by
    rcases cs with _ | ⟨b, _ | ⟨d, cs⟩⟩ <;> simp [isDocumentMark, ne]
  have hplain : startsPlain r.inFlow (c :: cs) = true := by
    simp [startsPlain, isIndicator, isFlowMark, ne, not_endsWord_of_isVisible hv]
  simp [token?, ne, hmark, hplain]

variable {key ds : List Char} {p : Place}

/-- A reader behind a key, before the colon that makes it one. -/
def behindKey (tokens : List Token) (columns : List Nat) (p : Place) (key ds : List Char) :
    TokenReader :=
  { inBlock (.scalar .plain key :: tokens) columns false ⟨p.right key.length, ':' :: ds⟩ with
    candidate := some ⟨p, tokens.length, columns.head? == some p.column⟩ }

theorem plain?_key (hk : Word key) (hd : endsWord ds = true) :
    (inBlock tokens columns true ⟨p, key ++ ':' :: ds⟩).plain? =
      some (behindKey tokens columns p key ds) := by
  simp [plain?, offer?, dropCandidate?, inBlock, inFlow, column, plain_key hk hd, push, behindKey]

/-- The colon is in the line of the key, not far from where it begins, so the key is not lost. -/
theorem toToken?_behindKey (hw : key.length ≤ keyWidth) (hc : ∀ m ∈ columns.head?, m ≤ p.column) :
    (behindKey tokens columns p key ds).toToken? = some (behindKey tokens columns p key ds) := by
  have hgap : skipGap false false false (p.right key.length) (':' :: ds) =
      (false, ⟨p.right key.length, ':' :: ds⟩) := skipGap_of_visible (by decide) (by decide) _ _ _
  have hkept : kept? (p.right key.length)
      (some ⟨p, tokens.length, columns.head? == some p.column⟩) =
      some (some ⟨p, tokens.length, columns.head? == some p.column⟩) := by
    simp [kept?, Candidate.isLost, Place.right, hw]
  have hclose : closeBeyond (p.right key.length).column (.scalar .plain key :: tokens) columns =
      (.scalar .plain key :: tokens, columns) :=
    closeBeyond_of_le fun m hm => Nat.le_trans (hc m hm) (Nat.le_add_right _ _)
  simp [toToken?, behindKey, inBlock, inFlow, hgap, dropLost?, hkept, closeBlocks, column, hclose]

theorem token?_colon (hd : endsWord ds = true) (r : TokenReader) : r.token? ':' ds = r.value? := by
  have hmark : isDocumentMark r.cursor.place (':' :: ds) = false := by
    rcases ds with _ | ⟨b, _ | ⟨d, ds⟩⟩ <;> simp [isDocumentMark]
  simp [token?, hmark, hd]

/-- Puts a token behind the first `n`, where `later` are all that follow them. -/
theorem insert_append {r : TokenReader} {front : List Token} {n : Nat} (later : List Token)
    (t : Token) (ht : r.tokens = later ++ front) (hn : n = front.length) :
    r.insert n t = { r with tokens := later ++ t :: front } := by
  have hl : r.tokens.length - n = later.length := by simp [ht, hn]
  rw [insert, hl, ht, List.take_left, List.drop_left]

theorem levelled_of_le {n : Nat} (h : ∀ m ∈ columns.head?, m ≤ n) :
    levelled n tokens columns =
      if columns.head? = some n then (tokens, columns)
      else (.blockMapping :: tokens, n :: columns) := by
  simp only [levelled, closeBeyond_of_le h]

theorem levelled_closeBeyond (n : Nat) (tokens : List Token) (columns : List Nat) :
    levelled n (closeBeyond n tokens columns).1 (closeBeyond n tokens columns).2 =
      levelled n tokens columns := by
  rw [levelled_of_le (closeBeyond_head_le n tokens columns), levelled]

/-- The colon puts the sign of the key in front of it, and that of a collection if one begins
there. -/
theorem value?_behindKey (hc : ∀ m ∈ columns.head?, m ≤ p.column) :
    (behindKey tokens columns p key ds).value? =
      some (inBlock
        (.value :: .scalar .plain key :: .key :: (levelled p.column tokens columns).1)
        (levelled p.column tokens columns).2 false ⟨p.right (key.length + 1), ds⟩) := by
  have hkey : (behindKey tokens columns p key ds).insert tokens.length .key =
      { behindKey tokens columns p key ds with tokens := .scalar .plain key :: .key :: tokens } :=
    insert_append [.scalar .plain key] .key rfl rfl
  -- the sign of a collection goes in front of that of the key, which stands there already
  have hopen : { behindKey tokens columns p key ds with
        tokens := .scalar .plain key :: .key :: tokens }.openBlock
          p.column tokens.length .blockMapping =
      { behindKey tokens columns p key ds with
        tokens := .scalar .plain key :: .key :: (levelled p.column tokens columns).1
        columns := (levelled p.column tokens columns).2 } := by
    rw [openBlock, levelled_of_le hc]
    rcases columns with _ | ⟨m, ms⟩
    · rw [insert_append [.scalar .plain key, .key] .blockMapping rfl rfl]
      rfl
    · have hm := hc m rfl
      by_cases hmp : m = p.column
      · simp [behindKey, inBlock, inFlow, least, hmp]
      · have hlt : m + 1 ≤ p.column := by omega
        rw [insert_append [.scalar .plain key, .key] .blockMapping rfl rfl]
        simp [behindKey, inBlock, inFlow, least, hmp, hlt]
  have hvalue : (behindKey tokens columns p key ds).value? =
      let r := ((behindKey tokens columns p key ds).insert tokens.length .key).openBlock
        p.column tokens.length .blockMapping
      some ({ r with candidate := none, keyAllowed := false }.push .value (r.cursor.skip 1)) := rfl
  rw [hvalue, hkey, hopen]
  simp [push, Cursor.skip, behindKey, inBlock, Place.right_right]

theorem tokens?_of_token? {r r' r'' : TokenReader} {c : Char} {cs : List Char} (fuel : Nat)
    (hr : r.toToken? = some r') (hc : r'.cursor.rest = c :: cs) (ht : r'.token? c cs = some r'') :
    tokens? (fuel + 1) r = tokens? fuel r'' := by
  rw [tokens?, hr, Option.bind_eq_bind, Option.bind_some, hc]
  simp only [ht, Option.bind_some]

theorem tokens?_key (hk : Word key) (hw : key.length ≤ keyWidth) (hd : endsWord ds = true)
    (fuel : Nat)
    (hs : skipGap false false keyAllowed cursor.place cursor.rest =
      (true, ⟨p, key ++ ':' :: ds⟩)) :
    tokens? (fuel + 2) (inBlock tokens columns keyAllowed cursor) =
      tokens? fuel (inBlock
        (.value :: .scalar .plain key :: .key :: (levelled p.column tokens columns).1)
        (levelled p.column tokens columns).2 false ⟨p.right (key.length + 1), ds⟩) := by
  obtain ⟨c, cs, rfl, ha⟩ := hk.exists_cons
  -- collections right of the key have ended, so the others begin no further than it does
  have hle := closeBeyond_head_le p.column tokens columns
  rw [tokens?_of_token? (fuel + 1) (toToken?_inBlock hs) rfl
      ((token?_of_isAlphanum _ ha _).trans (plain?_key hk hd)),
    tokens?_of_token? fuel (toToken?_behindKey hw hle) rfl
      ((token?_colon hd _).trans (value?_behindKey hle)),
    levelled_closeBeyond]

/-! ## Scalars behind a key -/

variable {rest value : List Char} {column : Nat}

theorem toToken?_value {c : Char} (hc : isVisible c = true) (hh : c ≠ '#') (cs : List Char)
    (hle : ∀ m ∈ columns.head?, m ≤ p.column) :
    (inBlock tokens columns false ⟨p, ' ' :: c :: cs⟩).toToken? =
      some (inBlock tokens columns false ⟨p.right 1, c :: cs⟩) := by
  have hgap : skipGap false false false p (' ' :: c :: cs) = (false, ⟨p.right 1, c :: cs⟩) := by
    rw [skipGap]
    simp [isBreak, skipGap_of_visible hc hh]
  have hclose : closeBeyond (p.right 1).column tokens columns = (tokens, columns) :=
    closeBeyond_of_le fun m hm => Nat.le_trans (hle m hm) (Nat.le_add_right _ _)
  rw [toToken?_inBlock hgap, hclose]

/-- Behind a colon no key can begin in the same line. -/
theorem offer?_inBlock (tokens : List Token) (columns : List Nat) (cursor : Cursor) :
    (inBlock tokens columns false cursor).offer? = some (inBlock tokens columns false cursor) := rfl

/-- A plain value reaches to the next line, so the reader has come to its first character. -/
theorem tokens?_plain (hv : Word value) (k : Nat) (hk : k ≤ column)
    (hrest : BeginsVisibly rest) (hcol : columns.head? = some column) (hle : column ≤ p.column)
    (fuel : Nat) :
    tokens? (fuel + 1) (inBlock tokens columns false
        ⟨p, ' ' :: (value ++ '\n' :: (List.replicate k ' ' ++ rest))⟩) =
      tokens? fuel (inBlock (.scalar .plain value :: tokens) columns true
        ⟨⟨p.line + 1, k⟩, rest⟩) := by
  have hleast (d : Cursor) : (inBlock tokens columns false d).least = column + 1 := by
    obtain ⟨ms, rfl⟩ := List.head?_eq_some_iff.1 hcol
    rfl
  have hplain : plain false (column + 1) .nothing (p.right 1)
      (value ++ '\n' :: (List.replicate k ' ' ++ rest)) =
      some ⟨value, true, ⟨⟨p.line + 1, k⟩, rest⟩⟩ :=
    plain_line hv k (Nat.lt_succ_of_le hk) fun c hc => (hrest c hc).1
  have hread : (inBlock tokens columns false
      ⟨p.right 1, value ++ '\n' :: (List.replicate k ' ' ++ rest)⟩).plain? =
      some (inBlock (.scalar .plain value :: tokens) columns true ⟨⟨p.line + 1, k⟩, rest⟩) := by
    simp only [plain?, offer?_inBlock, Option.bind_eq_bind, Option.bind_some, hleast]
    simp only [inBlock, inFlow, List.isEmpty_nil, Bool.not_true, hplain]
    rfl
  obtain ⟨c, cs, rfl, ha⟩ := hv.exists_cons
  have hhash : c ≠ '#' := ne_of_apart ha rfl
  have hle' : ∀ m ∈ columns.head?, m ≤ p.column := by simpa [hcol]
  exact tokens?_of_token? fuel (toToken?_value (isVisible_of_isAlphanum ha) hhash _ hle') rfl
    ((token?_of_isAlphanum _ ha _).trans hread)

theorem token?_quote (r : TokenReader) (cs : List Char) :
    r.token? '\'' cs = r.start? fun _ =>
      (singleQuoted .nothing (r.cursor.skip 1).place cs).map fun (t, d) =>
        (.scalar .quoted t, d) := by
  have hmark : isDocumentMark r.cursor.place ('\'' :: cs) = false := by
    rcases cs with _ | ⟨b, _ | ⟨d, cs⟩⟩ <;> simp [isDocumentMark]
  simp [token?, hmark]

theorem tokens?_quoted (rest : List Char) (hv : ∀ c ∈ value, isVisible c = true)
    (hrest : rest.head? ≠ some '\'') (hle : ∀ m ∈ columns.head?, m ≤ p.column) :
    ∃ q : Place, ∀ fuel,
      tokens? (fuel + 1) (inBlock tokens columns false
          ⟨p, ' ' :: '\'' :: (doubleQuotes value ++ '\'' :: rest)⟩) =
        tokens? fuel (inBlock (.scalar .quoted value :: tokens) columns false ⟨q, rest⟩) := by
  obtain ⟨q, hread⟩ := singleQuoted_doubleQuotes (p := (p.right 1).right 1) hv
    (Nat.succ_pos _) hrest
  refine ⟨q, fun fuel => ?_⟩
  refine tokens?_of_token? fuel (toToken?_value (by decide) (by decide) _ hle) rfl
    ((token?_quote _ _).trans ?_)
  simp only [start?, offer?_inBlock, Option.bind_eq_bind, Option.bind_some]
  simp only [inBlock, Cursor.skip, hread]
  rfl

/-! ## Lines -/

/-- True when a reader to whom a line is ahead, with `rest` from `column` on, makes of the text all
these tokens. It may still stand in front of the gap before. -/
def Ahead (tokens : List Token) (columns : List Nat) (column : Nat) (rest : List Char)
    (all : List Token) : Prop :=
  ∀ ⦃keyAllowed cursor line fuel⦄,
    skipGap false false keyAllowed cursor.place cursor.rest = (true, ⟨⟨line, column⟩, rest⟩) →
    rest.length < fuel → tokens? fuel (inBlock tokens columns keyAllowed cursor) = some all

variable {all : List Token} {k : Nat}

/-- Collections right of a line are over, whether or not they have been ended already. -/
theorem Ahead.of_closeBeyond {tokens' : List Token} {columns' : List Nat}
    (h : closeBeyond column tokens columns = closeBeyond column tokens' columns')
    (ha : Ahead tokens columns column rest all) : Ahead tokens' columns' column rest all := by
  intro a cursor line fuel hs hf
  have hread := ha hs hf
  obtain ⟨f, rfl⟩ : ∃ f, fuel = f + 1 := ⟨fuel - 1, by omega⟩
  rw [tokens?, toToken?_inBlock hs, h] at hread
  rw [tokens?, toToken?_inBlock hs, hread]

/-- Nothing is left to read: all collections are over. -/
theorem ahead_nil (tokens : List Token) :
    Ahead tokens [0] 0 [] (Token.blockEnd :: tokens).reverse := by
  intro a cursor line fuel hs hf
  obtain ⟨f, rfl⟩ : ∃ f, fuel = f + 1 := Nat.exists_eq_add_one.2 hf
  rw [tokens?, toToken?_inBlock hs]
  rfl

theorem Ahead.key_line (hk : Word key) (hw : key.length ≤ keyWidth) (hrest : BeginsVisibly rest)
    (ha : Ahead (.value :: .scalar .plain key :: .key :: (levelled column tokens columns).1)
      (levelled column tokens columns).2 k rest all) :
    Ahead tokens columns column (key ++ ':' :: '\n' :: (List.replicate k ' ' ++ rest)) all := by
  intro a cursor line fuel hs hf
  simp only [List.length_append, List.length_cons, List.length_replicate] at hf
  obtain ⟨f, rfl⟩ : ∃ f, fuel = f + 2 := ⟨fuel - 2, by omega⟩
  rw [tokens?_key hk hw rfl f hs]
  exact ha (skipGap_line hrest k _) (by omega)

theorem Ahead.entry {e : Entry} (he : e.Legible) (hk : k ≤ column) (hrest : BeginsVisibly rest)
    (ha : Ahead (e.tokens.reverse ++ (levelled column tokens columns).1)
      (levelled column tokens columns).2 k rest all) :
    Ahead tokens columns column (e.line ++ (List.replicate k ' ' ++ rest)) all := by
  intro a cursor line fuel hs hf
  obtain ⟨key, isQuoted, value⟩ := e
  simp only [Entry.line, List.append_assoc, List.cons_append, List.nil_append, List.length_append,
    List.length_cons, List.length_replicate] at hs hf
  obtain ⟨f, rfl⟩ : ∃ f, fuel = f + 3 := ⟨fuel - 3, by omega⟩
  have hhead := levelled_head column tokens columns
  rw [tokens?_key he.key he.width rfl (f + 1) hs]
  have hle : ∀ m ∈ (levelled column tokens columns).2.head?, m ≤ column := by simp [hhead]
  cases isQuoted with
  | false =>
    -- the scalar has been read as far as the next line, so no gap is left in front of it
    simp only [Entry.scalar, Bool.false_eq_true, if_false] at hf ⊢
    rw [tokens?_plain (he.plain rfl) k hk hrest hhead (Nat.le_add_right _ _) f]
    exact ha (skipGap_of_beginsVisibly hrest true _) (by omega)
  | true =>
    simp only [Entry.scalar, if_true, List.cons_append, List.append_assoc, List.nil_append] at hf ⊢
    obtain ⟨q, hread⟩ := tokens?_quoted ('\n' :: (List.replicate k ' ' ++ rest))
      (p := (⟨line, column⟩ : Place).right (key.length + 1)) he.quoted (by simp)
      fun m hm => Nat.le_trans (hle m hm) (Nat.le_add_right _ _)
    rw [hread]
    exact ha (skipGap_line hrest k q) (by omega)

theorem beginsVisibly_append {cs : List Char} (h : Word cs) (rest : List Char) :
    BeginsVisibly (cs ++ rest) := by
  obtain ⟨c, ds, rfl, ha⟩ := h.exists_cons
  rintro _ ⟨⟩
  exact ⟨isVisible_of_isAlphanum ha, ne_of_apart ha rfl⟩

theorem beginsVisibly_entry {e : Entry} (he : e.Legible) (rest : List Char) :
    BeginsVisibly (e.line ++ rest) := by
  rw [Entry.line, List.append_assoc]
  exact beginsVisibly_append he.key _

/-- Entries in lines that begin at one column, before a line that begins at the margin. -/
theorem Ahead.entries {e : Entry} {es : List Entry} (hes : ∀ f ∈ e :: es, f.Legible)
    (hrest : BeginsVisibly rest)
    (ha : Ahead (((e :: es).flatMap Entry.tokens).reverse ++ (levelled k tokens columns).1)
      (levelled k tokens columns).2 0 rest all) :
    Ahead tokens columns k
      (e.line ++ (es.flatMap (fun f => List.replicate k ' ' ++ f.line) ++ rest)) all := by
  -- the reader changes with each line, and with it which entry is the first
  induction es generalizing e tokens columns with
  | nil =>
    refine Ahead.entry (k := 0) (hes e List.mem_cons_self) (Nat.zero_le k) hrest ?_
    simpa using ha
  | cons f fs ih =>
    have hf := beginsVisibly_entry (hes f (by simp))
    have hline : (f :: fs).flatMap (fun f => List.replicate k ' ' ++ f.line) ++ rest =
        List.replicate k ' ' ++
          (f.line ++ (fs.flatMap (fun f => List.replicate k ' ' ++ f.line) ++ rest)) := by simp
    -- a collection has begun at this column, whichever line is the first
    have hlevel : levelled k (e.tokens.reverse ++ (levelled k tokens columns).1)
        (levelled k tokens columns).2 =
        (e.tokens.reverse ++ (levelled k tokens columns).1, (levelled k tokens columns).2) := by
      have hhead := levelled_head k tokens columns
      rw [levelled_of_le (by simp [hhead]), if_pos hhead]
    rw [hline]
    refine Ahead.entry (hes e List.mem_cons_self) (Nat.le_refl k) (hf _)
      (ih (fun g hg => hes g (List.mem_cons_of_mem e hg)) ?_)
    rw [hlevel]
    simpa using ha

theorem Ahead.section {s : Section} (hs : s.Legible) (hrest : BeginsVisibly rest)
    (ha : Ahead (s.tokens.reverse ++ (levelled 0 tokens columns).1) (levelled 0 tokens columns).2
      0 rest all) :
    Ahead tokens columns 0 (s.lines ++ rest) all := by
  have hhead := levelled_head 0 tokens columns
  obtain ⟨ms, hms⟩ := List.head?_eq_some_iff.1 hhead
  obtain ⟨key, entries⟩ := s
  obtain ⟨e, es, rfl⟩ := List.exists_cons_of_ne_nil hs.nonempty
  have hlines : (⟨key, e :: es⟩ : Section).lines ++ rest = key ++ ':' :: '\n' ::
      (List.replicate 2 ' ' ++
        (e.line ++ (es.flatMap (fun f => List.replicate 2 ' ' ++ f.line) ++ rest))) := by
    simp [Section.lines]
  -- the first entry begins a mapping right of the section, and what follows the last one ends it
  have hlevel : levelled 2 (.value :: .scalar .plain key :: .key :: (levelled 0 tokens columns).1)
      (levelled 0 tokens columns).2 =
      (.blockMapping :: .value :: .scalar .plain key :: .key :: (levelled 0 tokens columns).1,
        2 :: (levelled 0 tokens columns).2) := by
    rw [levelled_of_le (by simp [hhead]), if_neg (by simp [hhead])]
  have hfirst := beginsVisibly_entry (hs.entries e List.mem_cons_self)
  rw [hlines]
  refine Ahead.key_line hs.key hs.width (hfirst _) (Ahead.entries hs.entries hrest ?_)
  rw [hlevel]
  refine Ahead.of_closeBeyond ?_ ha
  simp [closeBeyond, hms, Section.tokens]

theorem beginsVisibly_sections {ss : List Section} (hss : ∀ s ∈ ss, s.Legible) :
    BeginsVisibly (ss.flatMap Section.lines) := by
  rcases ss with _ | ⟨s, ss⟩
  · exact nofun
  · rw [List.flatMap_cons, Section.lines, List.append_assoc]
    exact beginsVisibly_append (hss s List.mem_cons_self).key _

/-- Sections, of which the reader has already begun the mapping. -/
theorem ahead_sections (tokens : List Token) {ss : List Section} (hss : ∀ s ∈ ss, s.Legible) :
    Ahead tokens [0] 0 (ss.flatMap Section.lines)
      (tokens.reverse ++ (ss.flatMap Section.tokens ++ [.blockEnd])) := by
  induction ss generalizing tokens with
  | nil => simpa using ahead_nil tokens
  | cons s ss ih =>
    have hss' := fun t ht => hss t (List.mem_cons_of_mem s ht)
    have hlevel : levelled 0 tokens [0] = (tokens, [0]) := rfl
    rw [List.flatMap_cons]
    refine Ahead.section (hss s List.mem_cons_self) (beginsVisibly_sections hss') ?_
    rw [hlevel]
    simpa using ih (s.tokens.reverse ++ tokens) hss'

end TokenReader

/-! ## Texts -/

def isLineCharacter (c : Char) : Bool := isVisible c || c == ' ' || c == '\n'

theorem isLineCharacter_of_isVisible {c : Char} (h : isVisible c = true) :
    isLineCharacter c = true := by simp [isLineCharacter, h]

theorem not_isForbidden {c : Char} (h : isLineCharacter c = true) : isForbidden c = false := by
  simp only [isLineCharacter, isVisible, Bool.or_eq_true, Bool.and_eq_true, decide_eq_true_eq,
    beq_iff_eq] at h
  rcases h with (h | rfl) | rfl
  · simp [isForbidden]
    omega
  · decide
  · decide

theorem alikeBreaks_eq {cs : List Char} (h : ∀ c ∈ cs, isLineCharacter c = true) :
    alikeBreaks cs = cs := by
  induction cs with
  | nil => rfl
  | cons c cs ih =>
    have hc := h c List.mem_cons_self
    have hreturn : c ≠ '\r' := ne_of_apart hc rfl
    have hnext : c ≠ '\u0085' := ne_of_apart hc rfl
    rw [alikeBreaks.eq_3 _ _ (by simp [hreturn]), ih fun d hd => h d (List.mem_cons_of_mem c hd)]
    simp [hreturn, hnext]

theorem mem_of_mem_doubleQuotes {c : Char} {cs : List Char} (h : c ∈ doubleQuotes cs) : c ∈ cs := by
  induction cs with
  | nil => exact h
  | cons d ds ih =>
    rw [doubleQuotes] at h
    split at h <;> grind

theorem Entry.Legible.isLineCharacter {e : Entry} (he : e.Legible) :
    ∀ c ∈ e.line, isLineCharacter c = true := by
  have hkey := fun c hc => isLineCharacter_of_isVisible (he.key.visible c hc)
  have hvalue := fun c hc => isLineCharacter_of_isVisible (he.quoted c hc)
  have hscalar : ∀ c ∈ e.scalar, Yaml.isLineCharacter c = true := by
    rw [Entry.scalar]
    split
    · have hquote : Yaml.isLineCharacter '\'' = true := rfl
      simp only [List.mem_cons, List.mem_append, List.not_mem_nil, or_false]
      rintro c (rfl | hc | rfl)
      · exact hquote
      · exact hvalue c (mem_of_mem_doubleQuotes hc)
      · exact hquote
    · exact hvalue
  simp only [Entry.line, List.mem_append, List.mem_cons, List.not_mem_nil, or_false]
  rintro c (hc | rfl | rfl | hc | rfl)
  · exact hkey c hc
  · rfl
  · rfl
  · exact hscalar c hc
  · rfl

theorem Section.Legible.isLineCharacter {s : Section} (hs : s.Legible) :
    ∀ c ∈ s.lines, isLineCharacter c = true := by
  simp only [Section.lines, List.mem_append, List.mem_cons, List.mem_flatMap,
    List.mem_replicate]
  rintro c (hc | rfl | rfl | ⟨e, he, ⟨-, rfl⟩ | hc⟩)
  · exact isLineCharacter_of_isVisible (hs.key.visible c hc)
  · rfl
  · rfl
  · rfl
  · exact (hs.entries e he).isLineCharacter c hc

open TokenReader in
/-- The lines of sections make the tokens of a mapping of mappings. -/
theorem tokens_of_sections {s : Section} {ss : List Section} (hss : ∀ t ∈ s :: ss, t.Legible) :
    Token.ofText? (String.ofList ((s :: ss).flatMap Section.lines)) =
      some (.blockMapping :: ((s :: ss).flatMap Section.tokens ++ [.blockEnd])) := by
  have hchars : ∀ c ∈ (s :: ss).flatMap Section.lines, isLineCharacter c = true := by
    intro c hc
    obtain ⟨t, ht, hc⟩ := List.mem_flatMap.1 hc
    exact (hss t ht).isLineCharacter c hc
  have hforbidden : ((s :: ss).flatMap Section.lines).any isForbidden = false :=
    List.any_eq_false.2 fun c hc => by simp [not_isForbidden (hchars c hc)]
  have hahead : Ahead [] [] 0 ((s :: ss).flatMap Section.lines)
      (.blockMapping :: ((s :: ss).flatMap Section.tokens ++ [.blockEnd])) := by
    have hss' := fun t ht => hss t (List.mem_cons_of_mem s ht)
    have hlevel : levelled 0 [] [] = ([.blockMapping], [0]) := rfl
    rw [List.flatMap_cons]
    refine Ahead.section (hss s List.mem_cons_self) (beginsVisibly_sections hss') ?_
    rw [hlevel]
    have hrest := ahead_sections (s.tokens.reverse ++ [.blockMapping]) hss'
    simp only [List.reverse_append, List.reverse_reverse] at hrest
    simpa using hrest
  rw [Token.ofText?, String.toList_ofList, alikeBreaks_eq hchars, hforbidden]
  exact hahead (skipGap_of_beginsVisibly (beginsVisibly_sections hss) true {})
    (Nat.lt_succ_self _)

end PacketRpc.Yaml
