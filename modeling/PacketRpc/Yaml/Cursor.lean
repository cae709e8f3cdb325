/-!
# Places in a text

Where a construct of YAML begins decides what it belongs to, so readers keep the line and the column
of what they read. A text is read after its line breaks have been made alike; two rarer characters
still break lines, because scalars keep them.
-/

namespace PacketRpc.Yaml

/-- How many lines stand before a character, and how many characters before it in its line. -/
structure Place where
  line : Nat := 0
  column : Nat := 0
  deriving DecidableEq, Repr

namespace Place

/-- The place `n` characters further in the same line. -/
def right (p : Place) (n : Nat) : Place := { p with column := p.column + n }

/-- The place where the next line begins. -/
def nextLine (p : Place) : Place := ⟨p.line + 1, 0⟩

end Place

/-- What has not been read yet, and where it stands. -/
structure Cursor where
  place : Place := {}
  rest : List Char
  deriving DecidableEq, Repr

/-! ## Characters -/

/-- Spaces and tabs. -/
def isBlank (c : Char) : Bool := c == ' ' || c == '\t'

/-- Line breaks, once those of several kinds have been made alike. -/
def isBreak (c : Char) : Bool := c == '\n' || c == '\u2028' || c == '\u2029'

/-- Characters of ASCII that are neither blanks nor control characters. -/
def isVisible (c : Char) : Bool := 0x20 < c.toNat && c.toNat < 0x7F

/-- Letters and digits of ASCII, dashes and underscores. -/
def isNameCharacter (c : Char) : Bool := c.isAlphanum || c == '-' || c == '_'

/-- Characters that part the nodes of flow style. -/
def isFlowMark (c : Char) : Bool :=
  c == ',' || c == '[' || c == ']' || c == '\x7b' || c == '\x7d'

/-- True at the end of a text, before a blank and before a line break. -/
def endsWord : List Char → Bool
  | [] => true
  | c :: _ => isBlank c || isBreak c

/-- True at the end of a line. -/
def endsLine : List Char → Bool
  | [] => true
  | c :: _ => isBreak c

/-- True of three dashes or three points that make a word and begin a line. -/
def isDocumentMark (p : Place) : List Char → Bool
  | a :: b :: c :: cs =>
    p.column == 0 && (a == '-' || a == '.') && b == a && c == a && endsWord cs
  | _ => false

/-! ## Moving on -/

namespace Cursor

/-- Moves on in the line to where only `rest` follows. -/
def advanceTo (c : Cursor) (rest : List Char) : Cursor :=
  ⟨c.place.right (c.rest.length - rest.length), rest⟩

/-- Moves on by `n` characters of the line. -/
def skip (c : Cursor) (n : Nat) : Cursor := ⟨c.place.right n, c.rest.drop n⟩

/-- Moves over a line break, if one follows. -/
def skipBreak (c : Cursor) : Cursor :=
  match c.rest with
  | [] => c
  | d :: cs => if isBreak d then ⟨c.place.nextLine, cs⟩ else c

end Cursor

/-- What follows the blanks at the front. -/
def skipBlanks (cs : List Char) : List Char := cs.dropWhile isBlank

/-- What follows blanks and a comment; nothing if something else follows in the line. -/
def skipToLineEnd? (cs : List Char) : Option (List Char) :=
  let rest := match skipBlanks cs with
    | '#' :: cs => cs.dropWhile fun c => !isBreak c
    | cs => cs
  if endsLine rest then some rest else none

/-- Makes line breaks alike: a carriage return, with or without a line feed after it, and the next
line character become a line feed. -/
def alikeBreaks : List Char → List Char
  | [] => []
  | '\r' :: '\n' :: cs => '\n' :: alikeBreaks cs
  | c :: cs => (if c == '\r' || c == '\u0085' then '\n' else c) :: alikeBreaks cs

/-- Control characters other than tab and line breaks, and the two characters that Unicode keeps out
of texts. -/
def isForbidden (c : Char) : Bool :=
  (c.toNat < 0x20 && c != '\t' && c != '\n' && c != '\r')
    || (0x7F ≤ c.toNat && c.toNat < 0xA0 && c.toNat != 0x85)
    || c.toNat == 0xFFFE || c.toNat == 0xFFFF

end PacketRpc.Yaml
