import PacketRpc.Yaml.Scalar
import PacketRpc.Yaml.Property

/-!
# Tokens

A text is cut into tokens. Most of them stand in the text; some are put in where the columns of a
text in block style say that a collection begins or ends. A key without a sign of its own is known
only by the colon behind it, so its sign is put in front of it later: until then it is a candidate.
A candidate is lost at the end of its line and after `keyWidth` characters.
-/

namespace PacketRpc.Yaml

/-- How a scalar is written. -/
inductive Style
  | plain
  | quoted
  | literal
  | folded
  deriving DecidableEq, Repr

/-- A token. -/
inductive Token
  | directive (d : Directive)
  | documentStart
  | documentEnd
  | blockSequence
  | blockMapping
  /-- The end of a collection in block style. -/
  | blockEnd
  | flowSequence
  | flowSequenceEnd
  | flowMapping
  | flowMappingEnd
  /-- The dash before an item in block style. -/
  | item
  /-- The comma between nodes in flow style. -/
  | comma
  | key
  | value
  | aliasOf (name : List Char)
  | anchor (name : List Char)
  | tag (t : TagText)
  | scalar (style : Style) (text : List Char)
  deriving DecidableEq, Repr

/-- A place where a key may have begun. -/
structure Candidate where
  place : Place
  /-- How many tokens stand before it. -/
  tokensBefore : Nat
  /-- Whether nothing but a key can stand there. -/
  isRequired : Bool
  deriving DecidableEq, Repr

/-- The greatest width of a key without a sign. -/
def keyWidth : Nat := 1024

/-- True of a candidate that what stands at a place can no longer make a key. -/
def Candidate.isLost (k : Candidate) (p : Place) : Bool :=
  k.place.line < p.line || k.place.column + keyWidth < p.column

/-- A reader of tokens. -/
structure TokenReader where
  cursor : Cursor
  /-- The tokens so far, the last of them first. -/
  tokens : List Token := []
  /-- The columns of the open collections in block style, the innermost first. -/
  columns : List Nat := []
  /-- The candidate for a key in the innermost open collection in flow style, or outside of all. -/
  candidate : Option Candidate := none
  /-- The candidates around each open collection in flow style, the innermost first. -/
  outer : List (Option Candidate) := []
  /-- Whether a key without a sign may begin here. -/
  keyAllowed : Bool := true
  deriving DecidableEq, Repr

namespace TokenReader

/-- True within a collection in flow style. -/
def inFlow (r : TokenReader) : Bool := !r.outer.isEmpty

/-- The column where the reader stands. -/
def column (r : TokenReader) : Nat := r.cursor.place.column

/-- The column right of the innermost collection in block style. -/
def least (r : TokenReader) : Nat :=
  match r.columns with
  | [] => 0
  | column :: _ => column + 1

/-- Adds a token, and moves on. -/
def push (r : TokenReader) (t : Token) (c : Cursor) : TokenReader :=
  { r with tokens := t :: r.tokens, cursor := c }

/-- Puts a token behind the first `n`. -/
def insert (r : TokenReader) (n : Nat) (t : Token) : TokenReader :=
  let later := r.tokens.length - n
  { r with tokens := r.tokens.take later ++ t :: r.tokens.drop later }

/-! ## Candidates -/

/-- Gives up the candidate; nothing if a key is required there. -/
def dropCandidate? (r : TokenReader) : Option TokenReader :=
  match r.candidate with
  | some k => if k.isRequired then none else some { r with candidate := none }
  | none => some r

/-- Makes the place where the reader stands the candidate, if a key may begin there. It is required
in block style where the keys of the innermost collection begin. -/
def offer? (r : TokenReader) : Option TokenReader :=
  if r.keyAllowed then do
    let r ← r.dropCandidate?
    return { r with candidate := some {
      place := r.cursor.place
      tokensBefore := r.tokens.length
      isRequired := !r.inFlow && r.columns.head? == some r.column } }
  else some r

/-- A candidate, unless it is lost; nothing if it is lost though required. -/
def kept? (p : Place) (k : Option Candidate) : Option (Option Candidate) :=
  match k with
  | some k => if k.isLost p then (if k.isRequired then none else some none) else some (some k)
  | none => some none

/-- Gives up the candidates that are lost. -/
def dropLost? (r : TokenReader) : Option TokenReader := do
  let candidate ← kept? r.cursor.place r.candidate
  let outer ← r.outer.mapM (kept? r.cursor.place)
  return { r with candidate, outer }

/-! ## Collections in block style -/

/-- Ends the collections in block style that begin right of a column. -/
def closeBeyond (column : Nat) (tokens : List Token) : List Nat → List Token × List Nat
  | [] => (tokens, [])
  | c :: cs => if column < c then closeBeyond column (.blockEnd :: tokens) cs else (tokens, c :: cs)

/-- Ends the collections in block style that the reader stands left of. -/
def closeBlocks (r : TokenReader) : TokenReader :=
  if r.inFlow then r
  else
    let (tokens, columns) := closeBeyond r.column r.tokens r.columns
    { r with tokens, columns }

/-- Ends all collections in block style. -/
def closeAllBlocks (r : TokenReader) : TokenReader :=
  if r.inFlow then r
  else { r with tokens := r.columns.map (fun _ => Token.blockEnd) ++ r.tokens, columns := [] }

/-- Begins a collection in block style at a column behind the first `n` tokens, unless one has begun
there or right of it. -/
def openBlock (r : TokenReader) (column n : Nat) (t : Token) : TokenReader :=
  if !r.inFlow && r.least ≤ column then { r.insert n t with columns := column :: r.columns } else r

/-! ## Between tokens -/

/-- Moves over blanks, comments and line breaks. In block style a key may begin after a line break,
and tabs may not stand before it. A byte order mark may begin any line. -/
def skipGap (inFlow : Bool) (inComment keyAllowed : Bool) (p : Place) :
    List Char → Bool × Cursor
  | [] => (keyAllowed, ⟨p, []⟩)
  | c :: cs =>
    if isBreak c then skipGap inFlow false (keyAllowed || !inFlow) p.nextLine cs
    else if inComment || c == '#' then skipGap inFlow true keyAllowed (p.right 1) cs
    else if c == ' ' || (c == '\t' && (inFlow || !keyAllowed))
        || (c == '\uFEFF' && p.column == 0) then
      skipGap inFlow false keyAllowed (p.right 1) cs
    else (keyAllowed, ⟨p, c :: cs⟩)

/-- Moves to where the next token begins. -/
def toToken? (r : TokenReader) : Option TokenReader := do
  let (keyAllowed, cursor) := skipGap r.inFlow false r.keyAllowed r.cursor.place r.cursor.rest
  let r ← dropLost? { r with keyAllowed, cursor }
  return r.closeBlocks

/-! ## Tokens -/

/-- Takes a directive. -/
def directive? (r : TokenReader) : Option TokenReader := do
  let r ← r.closeAllBlocks.dropCandidate?
  let (d, rest) ← Yaml.directive? (r.cursor.rest.drop 1)
  return { r with keyAllowed := false }.push (.directive d) (r.cursor.advanceTo rest).skipBreak

/-- Takes the mark of a document. -/
def documentMark? (r : TokenReader) (t : Token) : Option TokenReader := do
  let r ← r.closeAllBlocks.dropCandidate?
  return { r with keyAllowed := false }.push t (r.cursor.skip 3)

/-- Takes the sign that begins a collection in flow style. The collection may be a key. -/
def openFlow? (r : TokenReader) (t : Token) : Option TokenReader := do
  let r ← r.offer?
  return { r with candidate := none, outer := r.candidate :: r.outer, keyAllowed := true }.push t
    (r.cursor.skip 1)

/-- Takes the sign that ends a collection in flow style. -/
def closeFlow? (r : TokenReader) (t : Token) : Option TokenReader := do
  let r ← r.dropCandidate?
  let r := match r.outer with
    | k :: outer => { r with candidate := k, outer }
    | [] => r
  return { r with keyAllowed := false }.push t (r.cursor.skip 1)

/-- Takes a comma between nodes in flow style. -/
def comma? (r : TokenReader) : Option TokenReader := do
  let r ← r.dropCandidate?
  return { r with keyAllowed := true }.push .comma (r.cursor.skip 1)

/-- Takes the dash before an item. -/
def item? (r : TokenReader) : Option TokenReader := do
  if !r.inFlow && !r.keyAllowed then none
  let r ← (r.openBlock r.column r.tokens.length .blockSequence).dropCandidate?
  return { r with keyAllowed := true }.push .item (r.cursor.skip 1)

/-- Takes the sign before a key. -/
def key? (r : TokenReader) : Option TokenReader := do
  if !r.inFlow && !r.keyAllowed then none
  let r ← (r.openBlock r.column r.tokens.length .blockMapping).dropCandidate?
  return { r with keyAllowed := !r.inFlow }.push .key (r.cursor.skip 1)

/-- Takes the colon before a value. It makes the candidate a key; without one, it follows a key that
has a sign. -/
def value? (r : TokenReader) : Option TokenReader := do
  let r ← match r.candidate with
    | some k =>
      let r := (r.insert k.tokensBefore .key).openBlock k.place.column k.tokensBefore .blockMapping
      pure { r with candidate := none, keyAllowed := false }
    | none =>
      if !r.inFlow && !r.keyAllowed then none
      else pure { r.openBlock r.column r.tokens.length .blockMapping with keyAllowed := !r.inFlow }
  return r.push .value (r.cursor.skip 1)

/-- Takes something that may begin a key, but behind which no key can begin. -/
def start? (r : TokenReader) (take? : Cursor → Option (Token × Cursor)) : Option TokenReader := do
  let r ← r.offer?
  let (t, c) ← take? r.cursor
  return { r with keyAllowed := false }.push t c

/-- Takes a plain scalar. Behind its line a key may begin. -/
def plain? (r : TokenReader) : Option TokenReader := do
  let r ← r.offer?
  let s ← Yaml.plain r.inFlow r.least .nothing r.cursor.place r.cursor.rest
  return { r with keyAllowed := s.endsLine }.push (.scalar .plain s.text) s.cursor

/-- Takes a block scalar, behind which a key may begin. -/
def blockScalar? (r : TokenReader) (style : Style) : Option TokenReader := do
  let r ← r.dropCandidate?
  let (text, c) ← Yaml.blockScalar? (style == .folded) r.least (r.cursor.skip 1)
  return { r with keyAllowed := true }.push (.scalar style text) c

/-- Takes the token that begins with `c`, before `cs`. -/
def token? (r : TokenReader) (c : Char) (cs : List Char) : Option TokenReader :=
  let next := r.cursor.skip 1
  if r.column = 0 ∧ c = '%' then r.directive?
  else if isDocumentMark r.cursor.place (c :: cs) then
    r.documentMark? (if c = '-' then .documentStart else .documentEnd)
  else if c = '[' then r.openFlow? .flowSequence
  else if c = '\x7b' then r.openFlow? .flowMapping
  else if c = ']' then r.closeFlow? .flowSequenceEnd
  else if c = '\x7d' then r.closeFlow? .flowMappingEnd
  else if c = ',' then r.comma?
  else if c = '-' ∧ endsWord cs then r.item?
  else if c = '?' ∧ (r.inFlow ∨ endsWord cs) then r.key?
  else if c = ':' ∧ (r.inFlow ∨ endsWord cs) then r.value?
  else if c = '*' then r.start? fun _ => (name? cs).map fun (name, rest) =>
    (.aliasOf name, next.advanceTo rest)
  else if c = '&' then r.start? fun _ => (name? cs).map fun (name, rest) =>
    (.anchor name, next.advanceTo rest)
  else if c = '!' then r.start? fun d => (tag? r.inFlow (c :: cs)).map fun (t, rest) =>
    (.tag t, d.advanceTo rest)
  else if c = '|' ∧ !r.inFlow then r.blockScalar? .literal
  else if c = '>' ∧ !r.inFlow then r.blockScalar? .folded
  else if c = '\'' then r.start? fun _ => (singleQuoted .nothing next.place cs).map fun (t, d) =>
    (.scalar .quoted t, d)
  else if c = '"' then r.start? fun _ => (doubleQuoted .nothing 0 0 next.place cs).map fun (t, d) =>
    (.scalar .quoted t, d)
  else if startsPlain r.inFlow (c :: cs) then r.plain?
  else none

/-- Takes all tokens to the end of the text, of which there are fewer than `fuel`. -/
def tokens? : (fuel : Nat) → TokenReader → Option (List Token)
  | 0, _ => none
  | fuel + 1, r => do
    let r ← r.toToken?
    match r.cursor.rest with
    | [] => return (← r.closeAllBlocks.dropCandidate?).tokens.reverse
    | c :: cs => tokens? fuel (← r.token? c cs)

end TokenReader

/-- The tokens of a text; nothing if it has a character or a construct that cannot be. -/
def Token.ofText? (text : String) : Option (List Token) :=
  let cs := alikeBreaks text.toList
  if cs.any isForbidden then none
  else TokenReader.tokens? (cs.length + 1) { cursor := { rest := cs } }

end PacketRpc.Yaml
