import PacketRpc.Yaml.Cursor
import PacketRpc.Number.Digits

/-!
# Names, tags and directives

A node may have a name, by which aliases refer to it, and a tag. A tag is given in full, or by a
handle that stands for the front of it; directives before a document say what its handles stand for.
Each reader takes its construct from the front of a line and gives it with what follows.
-/

namespace PacketRpc.Yaml

/-- The name behind the sign of an alias or of an anchor. -/
def name? (cs : List Char) : Option (List Char × List Char) :=
  let name := cs.takeWhile isNameCharacter
  let rest := cs.dropWhile isNameCharacter
  let isEnded := endsWord rest || match rest with
    | c :: _ => c == '?' || c == ':' || c == ',' || c == ']' || c == '\x7d' || c == '%' || c == '@'
        || c == '\x60'
    | [] => true
  if name.isEmpty || !isEnded then none else some (name, rest)

/-! ## Tags -/

/-- A tag as it is written: the rest of it behind a handle. Without a handle it is the tag in full.
-/
structure TagText where
  handle : List Char
  rest : List Char
  deriving DecidableEq, Repr

/-- Characters of tags; flow marks other than braces count only where a tag is given in full. -/
def isTagCharacter (inFull : Bool) (c : Char) : Bool :=
  isNameCharacter c || c == ';' || c == '/' || c == '?' || c == ':' || c == '@' || c == '&'
    || c == '=' || c == '+' || c == '$' || c == '.' || c == '!' || c == '~' || c == '*'
    || c == '\'' || c == '(' || c == ')' || (inFull && (c == ',' || c == '[' || c == ']'))

/-- How many more bytes belong to the character that begins with a byte. -/
def following? (byte : Nat) : Option Nat :=
  if byte < 0x80 then some 0
  else if 0xC0 ≤ byte ∧ byte < 0xE0 then some 1
  else if 0xE0 ≤ byte ∧ byte < 0xF0 then some 2
  else if 0xF0 ≤ byte ∧ byte < 0xF8 then some 3
  else none

/-- Takes the characters of a tag. A percent sign and two digits stand for a byte; `due` bytes still
belong to the character before. -/
def tagCharacters? (inFull : Bool) (due : Nat) : List Char → Option (List Char × List Char)
  | [] => if due = 0 then some ([], []) else none
  | '%' :: a :: b :: cs => do
    let byte := (← Digits.value? 16 a) * 16 + (← Digits.value? 16 b)
    let due ← if due = 0 then following? byte
      else if 0x80 ≤ byte ∧ byte < 0xC0 then some (due - 1) else none
    let (text, rest) ← tagCharacters? inFull due cs
    return (Char.ofNat byte :: text, rest)
  | c :: cs =>
    if due ≠ 0 ∨ c = '%' then none
    else if isTagCharacter inFull c then
      (tagCharacters? inFull 0 cs).map fun (text, rest) => (c :: text, rest)
    else some ([], c :: cs)

/-- Takes characters of a tag, of which there has to be one. -/
def someTagCharacters? (inFull : Bool) (cs : List Char) : Option (List Char × List Char) :=
  (tagCharacters? inFull 0 cs).filter fun (text, _) => !text.isEmpty

/-- Takes what may be a handle: an exclamation mark, a name and perhaps another exclamation mark. -/
def handle? : List Char → Option (List Char × List Char)
  | '!' :: cs =>
    let name := '!' :: cs.takeWhile isNameCharacter
    match cs.dropWhile isNameCharacter with
    | '!' :: rest => some (name ++ ['!'], rest)
    | rest => some (name, rest)
  | _ => none

/-- True of a handle, which is more than one exclamation mark and ends in one. -/
def isHandle (cs : List Char) : Bool := 1 < cs.length && cs.getLast? == some '!'

/-- Takes a tag, without regard to what follows it. -/
def openTag? (cs : List Char) : Option (TagText × List Char) :=
  match cs with
  | '!' :: '<' :: cs => do
    let (text, rest) ← someTagCharacters? true cs
    match rest with
    | '>' :: rest => return (⟨[], text⟩, rest)
    | _ => none
  | cs => do
    let (front, rest) ← handle? cs
    if isHandle front then
      let (text, rest) ← someTagCharacters? false rest
      return (⟨front, text⟩, rest)
    else
      let (text, rest) ← tagCharacters? false 0 rest
      match front.drop 1 ++ text with
      | [] => return (⟨[], ['!']⟩, rest)
      | text => return (⟨['!'], text⟩, rest)

/-- Takes a tag, which ends a word or, in flow style, stands before a comma. -/
def tag? (inFlow : Bool) (cs : List Char) : Option (TagText × List Char) :=
  (openTag? cs).filter fun (_, rest) => endsWord rest || (inFlow && rest.head? == some ',')

/-! ## Directives -/

/-- What is said before a document. -/
inductive Directive
  /-- The version of the language, which is one that readers know. -/
  | version
  /-- A handle, and the front of a tag that it stands for. -/
  | handle (handle front : List Char)
  deriving DecidableEq, Repr

/-- Takes a part of a version: one to nine digits. -/
def versionPart? (cs : List Char) : Option (Nat × List Char) :=
  match Digits.leading 10 cs with
  | (ds, rest) => if ds.isEmpty || 9 < ds.length then none else some (Digits.number 10 ds, rest)

/-- Takes a version that readers know. -/
def version? (cs : List Char) : Option (Directive × List Char) := do
  let (major, rest) ← versionPart? cs
  let (minor, rest) ← match rest with
    | '.' :: rest => versionPart? rest
    | _ => none
  if major = 1 ∧ (minor = 1 ∨ minor = 2) then some (.version, rest) else none

/-- Takes a handle and, after blanks, what it stands for. -/
def handleMeaning? (cs : List Char) : Option (Directive × List Char) := do
  let (handle, rest) ← handle? cs
  if handle ≠ ['!'] ∧ !isHandle handle then none
  if !(rest.head?.any isBlank) then none
  let (front, rest) ← someTagCharacters? true (skipBlanks rest)
  if endsWord rest then return (.handle handle front, rest) else none

/-- Reads the line behind the sign of a directive. -/
def directive? (cs : List Char) : Option (Directive × List Char) := do
  let name := cs.takeWhile isNameCharacter
  let rest := cs.dropWhile isNameCharacter
  if !endsWord rest then none
  let (directive, rest) ←
    if name = ['Y', 'A', 'M', 'L'] then version? (skipBlanks rest)
    else if name = ['T', 'A', 'G'] then handleMeaning? (skipBlanks rest)
    else none
  return (directive, ← skipToLineEnd? rest)

end PacketRpc.Yaml
