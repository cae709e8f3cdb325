import PacketRpc.Yaml.Library

/-!
# Writing content

A section has a line with its key, and under it the lines of its entries. Words stand plain if they
cannot be taken for anything but texts. All other texts stand in single quotes.
-/

namespace PacketRpc.Yaml

/-- A text with every single quote doubled. -/
def doubleQuotes : List Char → List Char
  | [] => []
  | c :: cs => if c = '\'' then '\'' :: '\'' :: doubleQuotes cs else c :: doubleQuotes cs

/-- True of visible characters that begin with a letter or a digit and do not end with a colon. No
mark of YAML stands in front of them, and none within them without a blank beside it. -/
def isWord (cs : List Char) : Bool :=
  cs.all isVisible && cs.head?.any Char.isAlphanum && cs.getLast? != some ':'

/-- True of what begins with a digit and holds nothing that a number does not. -/
def mayBeNumber (cs : List Char) : Bool :=
  cs.head?.any Char.isDigit && cs.all fun c => c == '.' || c == '+' || isNameCharacter c

/-- The words for nothing and for the two truth values, in small letters. -/
def reserved : List String := ["null", "true", "false", "yes", "no", "on", "off", "y", "n"]

/-- True of texts that are written plain. -/
def isPlain (cs : List Char) : Bool :=
  isWord cs && !mayBeNumber cs && !(reserved.map String.toList).contains (cs.map Char.toLower)

/-- How a text is written. -/
def written (cs : List Char) : List Char :=
  if isPlain cs then cs else '\'' :: (doubleQuotes cs ++ ['\''])

def Datum.written : Datum → List Char
  | unsigned n => Nat.toDigits 10 n
  | text s => Yaml.written s.toList

/-- The lines of entries, below the key of their section. -/
def entryLines (entries : List (String × Datum)) : List Char :=
  entries.flatMap fun (key, d) =>
    ' ' :: ' ' :: (key.toList ++ ':' :: ' ' :: (d.written ++ ['\n']))

def Content.lines (c : Content) : List Char :=
  c.flatMap fun (key, entries) => key.toList ++ ':' :: '\n' :: entryLines entries

/-- Writes content if it is simple. -/
def Content.emit (c : Content) : Except String String :=
  if c.isSimple then .ok (String.ofList c.lines) else .error "content is not simple"

end PacketRpc.Yaml
