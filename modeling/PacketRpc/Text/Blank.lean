/-!
# White space

The characters with the property of being white space, and texts without those at their ends.
-/

namespace PacketRpc.Text

/-- True of the characters that Unicode lists as white space. -/
def isWhiteSpace (c : Char) : Bool :=
  let n := c.toNat
  (9 ≤ n && n ≤ 13) || n == 0x20 || n == 0x85 || n == 0xA0 || n == 0x1680
    || (0x2000 ≤ n && n ≤ 0x200A) || n == 0x2028 || n == 0x2029 || n == 0x202F || n == 0x205F
    || n == 0x3000

/-- A row of characters without the white space at its ends. -/
def trimList (cs : List Char) : List Char :=
  ((cs.dropWhile isWhiteSpace).reverse.dropWhile isWhiteSpace).reverse

/-- A text without the white space at its ends. -/
def trim (text : String) : String := String.ofList (trimList text.toList)

end PacketRpc.Text
