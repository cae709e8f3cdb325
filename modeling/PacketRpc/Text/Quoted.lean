import PacketRpc.Bytes.Hex

/-!
# Characters and texts in quotes

Characters and texts are shown between quotes, with a backslash before the quote and before a
backslash, names for the common control characters, and the code in braces for other characters that
cannot be seen. Of those, only the ones below U+0100 are told apart.
-/

namespace PacketRpc.Text

/-- True of control characters, of blanks other than the space, and of the soft hyphen. -/
def isUnseen (c : Char) : Bool :=
  c.toNat < 0x20 || (0x7F ≤ c.toNat && c.toNat ≤ 0xA0) || c.toNat == 0xAD

/-- What stands for a character between quotes of a kind. -/
def escape (quote c : Char) : String :=
  if c = '\x00' then "\\0"
  else if c = '\t' then "\\t"
  else if c = '\r' then "\\r"
  else if c = '\n' then "\\n"
  else if c = quote ∨ c = '\\' then "\\" ++ c.toString
  else if isUnseen c then "\\u\x7b" ++ String.ofList (Nat.toDigits 16 c.toNat) ++ "\x7d"
  else c.toString

/-- A character between quotes. -/
def quotedChar (c : Char) : String := "'" ++ escape '\'' c ++ "'"

/-- A text between double quotes. -/
def quoted (text : String) : String := "\"" ++ String.join (text.toList.map (escape '"')) ++ "\""

end PacketRpc.Text
