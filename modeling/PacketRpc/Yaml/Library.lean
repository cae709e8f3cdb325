import PacketRpc.Yaml.Cursor

/-!
# Libraries for YAML

Settings are kept in YAML, but how that is read and written is left to a library. Read, a text makes
a value, and what settings ask of values are the entries of a mapping, texts, and numbers of two
widths. Written are mappings of mappings, whose entries are numbers and texts.
-/

namespace PacketRpc.Yaml

/-! ## What is written -/

/-- What an entry can hold. -/
inductive Datum
  | unsigned (n : Nat)
  | text (s : String)
  deriving DecidableEq, Repr

/-- Sections and their entries, each under its key. -/
abbrev Content := List (String × List (String × Datum))

/-- True of a key that begins with a letter, goes on with letters, digits, dashes and underscores,
and is not long. -/
def isKey (key : String) : Bool :=
  key.toList.head?.any Char.isAlpha && key.toList.all isNameCharacter && key.length ≤ 128

/-- True of keys of which there are some, and no two are the same. -/
def areKeys (keys : List String) : Bool := !keys.isEmpty && keys.Nodup && keys.all isKey

/-- True of the entries of a mapping whose values are as `f` asks. -/
def isMapping {α : Type} (f : α → Bool) (entries : List (String × α)) : Bool :=
  areKeys (entries.map Prod.fst) && entries.all fun e => f e.2

/-- True of a number of 64 bits, and of a text of visible characters. -/
def Datum.isSimple : Datum → Bool
  | unsigned n => n < UInt64.size
  | text s => s.toList.all isVisible

/-- True of content of simple data. Nothing else is ever written. -/
def Content.isSimple (c : Content) : Bool := isMapping (isMapping Datum.isSimple) c

/-! ## Libraries -/

/-- A library for YAML. -/
structure Library where
  /-- What can stand in a document. -/
  Value : Type
  /-- The document that a text is. -/
  parse? : String → Option Value
  /-- The entries of a mapping, under keys that are texts. -/
  entries? : Value → Option (List (String × Value))
  text? : Value → Option String
  uint32? : Value → Option UInt32
  uint64? : Value → Option UInt64
  /-- What is said of a text from which no settings can be read. -/
  complaint : String → String
  /-- Writes content, or says why it cannot be written. -/
  emit : Content → Except String String

end PacketRpc.Yaml
