import PacketRpc.Yaml.Cursor
import PacketRpc.Number.Digits

/-!
# Scalars

Plain and quoted scalars are words with gaps between them. A gap of blanks stays as it is; a gap
with line breaks is folded, to a space or to the breaks after the first. Block scalars are the lines
that are indented alike.
-/

namespace PacketRpc.Yaml

/-! ## Gaps -/

/-- What stands between two words. -/
inductive Gap
  | nothing
  | blanks (cs : List Char)
  /-- At least one line break: the first, unless it is escaped, and those after it. -/
  | breaks (first : Option Char) (more : List Char)
  deriving DecidableEq, Repr

namespace Gap

/-- Goes on with a blank. -/
def blank (c : Char) : Gap → Gap
  | nothing => blanks [c]
  | blanks cs => blanks (cs ++ [c])
  | breaks first more => breaks first more

/-- Goes on with a line break. -/
def lineBreak (c : Char) : Gap → Gap
  | nothing | blanks _ => breaks (some c) []
  | breaks first more => breaks first (more ++ [c])

/-- True of a gap with line breaks. -/
def isBroken : Gap → Bool
  | breaks .. => true
  | _ => false

/-- True where a word has just ended. -/
def isNothing : Gap → Bool
  | nothing => true
  | _ => false

/-- What a gap stands for once it is folded. -/
def text : Gap → List Char
  | nothing => []
  | blanks cs => cs
  | breaks (some '\n') [] => [' ']
  | breaks (some '\n') more => more
  | breaks first more => first.toList ++ more

end Gap

/-! ## Plain scalars -/

/-- Characters that no plain scalar starts with. -/
def isIndicator (c : Char) : Bool :=
  isFlowMark c || c == '#' || c == '&' || c == '*' || c == '!' || c == '|' || c == '>'
    || c == '\'' || c == '"' || c == '%' || c == '@' || c == '\x60'

/-- True where a plain scalar can start. -/
def startsPlain (inFlow : Bool) : List Char → Bool
  | [] => false
  | c :: cs =>
    if c == '-' then !endsWord cs
    else if c == '?' || c == ':' then !inFlow && !endsWord cs
    else !endsWord (c :: cs) && !isIndicator c

/-- True where a plain scalar ends within a word: at a colon that ends the word, and in flow style
also at a mark. -/
def endsPlain (inFlow : Bool) : List Char → Bool
  | [] => true
  | c :: cs => (c == ':' && endsWord cs) || (inFlow && isFlowMark c)

/-- True where, after a gap, no word of a plain scalar can start: at a comment, at the mark of a
document, and in block style left of the column `least`. -/
def endsAfterGap (inFlow : Bool) (least : Nat) (p : Place) : List Char → Bool
  | [] => true
  | c :: cs => c == '#' || isDocumentMark p (c :: cs) || (!inFlow && p.column < least)

/-- True of a colon right before a flow mark or a question mark, where it parts nothing. -/
def isStrayColon : List Char → Bool
  | ':' :: c :: _ => isFlowMark c || c == '?'
  | _ => false

/-- A plain scalar that has been read. -/
structure PlainScalar where
  text : List Char
  /-- True when line breaks have been passed over after its last word. -/
  endsLine : Bool
  cursor : Cursor
  deriving DecidableEq, Repr

/-- Reads on in a plain scalar after `gap`. In block style its words stand at the column `least` or
right of it; a tab may not stand in for that. -/
def plain (inFlow : Bool) (least : Nat) (gap : Gap) (p : Place) :
    List Char → Option PlainScalar
  | [] => some ⟨[], gap.isBroken, ⟨p, []⟩⟩
  | c :: cs =>
    if isBreak c then plain inFlow least (gap.lineBreak c) p.nextLine cs
    else if isBlank c then
      if gap.isBroken && c == '\t' && p.column < least then none
      else plain inFlow least (gap.blank c) (p.right 1) cs
    else if !gap.isNothing && endsAfterGap inFlow least p (c :: cs) then
      some ⟨[], gap.isBroken, ⟨p, c :: cs⟩⟩
    else if inFlow && isStrayColon (c :: cs) then none
    else if endsPlain inFlow (c :: cs) then some ⟨[], gap.isBroken, ⟨p, c :: cs⟩⟩
    else (plain inFlow least .nothing (p.right 1) cs).map fun s =>
      { s with text := gap.text ++ c :: s.text }

/-! ## Quoted scalars -/

/-- Reads on in single quotes after `gap`, to behind the quote that ends the scalar. Two quotes
stand for one. -/
def singleQuoted (gap : Gap) (p : Place) : List Char → Option (List Char × Cursor)
  | [] => none
  | '\'' :: '\'' :: cs => (singleQuoted .nothing (p.right 2) cs).map fun (text, c) =>
      (gap.text ++ '\'' :: text, c)
  | '\'' :: cs => some (gap.text, ⟨p.right 1, cs⟩)
  | c :: cs =>
    if isBreak c then singleQuoted (gap.lineBreak c) p.nextLine cs
    else if isBlank c then singleQuoted (gap.blank c) (p.right 1) cs
    else if isDocumentMark p (c :: cs) then none
    else (singleQuoted .nothing (p.right 1) cs).map fun (text, d) => (gap.text ++ c :: text, d)

/-- The characters that a backslash and one letter stand for. -/
def escapes : List (Char × Char) :=
  [('0', '\x00'), ('a', '\x07'), ('b', '\x08'), ('t', '\t'), ('\t', '\t'), ('n', '\n'),
    ('v', '\x0b'), ('f', '\x0c'), ('r', '\r'), ('e', '\x1b'), (' ', ' '), ('"', '"'), ('/', '/'),
    ('\\', '\\'), ('N', '\u0085'), ('_', '\u00a0'), ('L', '\u2028'), ('P', '\u2029')]

/-- How many hexadecimal digits follow a letter that takes some. -/
def escapeWidth? : Char → Option Nat
  | 'x' => some 2
  | 'u' => some 4
  | 'U' => some 8
  | _ => none

/-- Reads on in double quotes after `gap`, to behind the quote that ends the scalar. Where a
character is being spelled by its code, `due` digits are still to come and those before them make
`code`. -/
def doubleQuoted (gap : Gap) (due code : Nat) (p : Place) :
    List Char → Option (List Char × Cursor)
  | [] => none
  | c :: cs =>
    let after (text : List Char) : Option (List Char × Cursor) → Option (List Char × Cursor) :=
      Option.map fun (more, d) => (text ++ more, d)
    if 0 < due then
      match Digits.value? 16 c with
      | none => none
      | some d =>
        if 1 < due then doubleQuoted .nothing (due - 1) (code * 16 + d) (p.right 1) cs
        else if (code * 16 + d).isValidChar then
          after [Char.ofNat (code * 16 + d)] (doubleQuoted .nothing 0 0 (p.right 1) cs)
        else none
    else if isBreak c then doubleQuoted (gap.lineBreak c) 0 0 p.nextLine cs
    else if isBlank c then doubleQuoted (gap.blank c) 0 0 (p.right 1) cs
    else if isDocumentMark p (c :: cs) then none
    else if c == '"' then some (gap.text, ⟨p.right 1, cs⟩)
    else if c == '\\' then
      match cs with
      | [] => none
      | e :: cs =>
        if isBreak e then after gap.text (doubleQuoted (.breaks none []) 0 0 p.nextLine cs)
        else match escapeWidth? e with
          | some width => after gap.text (doubleQuoted .nothing width 0 (p.right 2) cs)
          | none => match escapes.lookup e with
            | some d => after (gap.text ++ [d]) (doubleQuoted .nothing 0 0 (p.right 2) cs)
            | none => none
    else after (gap.text ++ [c]) (doubleQuoted .nothing 0 0 (p.right 1) cs)

/-! ## Block scalars -/

/-- What becomes of the line breaks at the end of a block scalar. -/
inductive Chomping
  | strip
  /-- Only the first is kept. -/
  | clip
  | keep
  deriving DecidableEq, Repr

/-- How the lines of a block scalar make a text. -/
structure BlockHeader where
  /-- Whether line breaks between lines are folded. -/
  folded : Bool
  chomping : Chomping := .clip
  /-- How much further than the block around it the text is indented, if that is said. -/
  increment : Option Nat := none
  deriving DecidableEq, Repr

/-- Reads how line breaks at the end are dealt with. -/
def chomping? : List Char → Option (Chomping × List Char)
  | '-' :: cs => some (.strip, cs)
  | '+' :: cs => some (.keep, cs)
  | _ => none

/-- Reads an indentation, which is no zero; nothing if it is. -/
def increment? : List Char → Option (Option Nat × List Char)
  | [] => some (none, [])
  | c :: cs =>
    match Digits.value? 10 c with
    | none => some (none, c :: cs)
    | some 0 => none
    | some d => some (some d, cs)

/-- Reads the rest of a line behind the sign of a block scalar. -/
def blockHeader? (folded : Bool) (cs : List Char) : Option (BlockHeader × List Char) := do
  let (header, rest) ← match chomping? cs with
    | some (chomping, rest) => do
      let (increment, rest) ← increment? rest
      pure ((⟨folded, chomping, increment⟩ : BlockHeader), rest)
    | none => do
      let (increment, rest) ← increment? cs
      match increment, chomping? rest with
      | some _, some (chomping, rest) => pure (⟨folded, chomping, increment⟩, rest)
      | _, _ => pure (⟨folded, .clip, increment⟩, rest)
  return (header, ← skipToLineEnd? rest)

/-- The column that the empty lines at the front and the spaces of the first other line reach,
starting from `column`. A tab may not take part in it. -/
def leadingColumn? (column : Nat) : List Char → Option Nat
  | [] => some column
  | c :: cs =>
    if c == ' ' then leadingColumn? (column + 1) cs
    else if isBreak c then (leadingColumn? 0 cs).map (max column)
    else if c == '\t' then none
    else some column

/-- Where a reader stands in a block scalar. -/
inductive BlockPlace
  /-- Before a line: the line break that has ended the one before it, if there is one, and the
  breaks of empty lines after that. -/
  | before (first : Option Char) (more : List Char)
  | within
  deriving DecidableEq, Repr

namespace BlockHeader

/-- What the breaks before a line stand for. A single break is folded only between two lines that do
not begin with a blank. -/
def joint (h : BlockHeader) (first : Option Char) (more : List Char) (atBlanks : Bool) :
    List Char :=
  if h.folded && first == some '\n' && !atBlanks then (if more.isEmpty then [' '] else more)
  else first.toList ++ more

/-- What the breaks after the last line stand for. -/
def tail (h : BlockHeader) (first : Option Char) (more : List Char) : List Char :=
  match h.chomping with
  | .strip => []
  | .clip => first.toList
  | .keep => first.toList ++ more

/-- Reads on in a block scalar, whose lines stand at the column `indent`; `afterBlank` says whether
the line before begins with a blank. -/
def lines (h : BlockHeader) (indent : Nat) (afterBlank : Bool) (b : BlockPlace) (p : Place) :
    List Char → Option (List Char × Cursor)
  | [] => match b with
    | .before first more => some (h.tail first more, ⟨p, []⟩)
    | .within => some ([], ⟨p, []⟩)
  | c :: cs =>
    match b with
    | .before first more =>
      if isBreak c then h.lines indent afterBlank (.before first (more ++ [c])) p.nextLine cs
      else if p.column < indent then
        if c == ' ' then h.lines indent afterBlank (.before first more) (p.right 1) cs
        else if c == '\t' then none
        else some (h.tail first more, ⟨p, c :: cs⟩)
      else (h.lines indent (isBlank c) .within (p.right 1) cs).map fun (text, d) =>
        (h.joint first more (afterBlank || isBlank c) ++ c :: text, d)
    | .within =>
      if isBreak c then h.lines indent afterBlank (.before (some c) []) p.nextLine cs
      else (h.lines indent afterBlank .within (p.right 1) cs).map fun (text, d) => (c :: text, d)

end BlockHeader

/-- Reads a block scalar behind its sign; `least` is the column right of the block around it. -/
def blockScalar? (folded : Bool) (least : Nat) (c : Cursor) : Option (List Char × Cursor) := do
  let (header, rest) ← blockHeader? folded c.rest
  let c := (c.advanceTo rest).skipBreak
  let indent ← match header.increment with
    | some n => pure (least - 1 + n)
    | none => (leadingColumn? c.place.column c.rest).map fun n => max n (max least 1)
  header.lines indent false (.before none []) c.place c.rest

end PacketRpc.Yaml
