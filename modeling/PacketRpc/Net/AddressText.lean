import PacketRpc.Net.Address
import PacketRpc.Number.Digits

/-!
# Socket addresses as text

Host addresses of the fourth version are four decimal numbers between points; those of the sixth
are hexadecimal groups between colons, in brackets, where one row of zero groups may be left out.
Writing leaves out the first of the longest rows of at least two groups; reading takes any spelling.
-/

namespace PacketRpc

/-! ## Writing -/

/-- The decimal numbers of a host address, between points. -/
def IPv4.text (a : IPv4) : String :=
  a.first.toNat.repr ++ "." ++ a.second.toNat.repr ++ "." ++ a.third.toNat.repr ++ "."
    ++ a.fourth.toNat.repr

/-- The host address whose four bytes are two groups. -/
def IPv4.ofGroups (high low : UInt16) : IPv4 :=
  ⟨(high >>> 8).toUInt8, high.toUInt8, (low >>> 8).toUInt8, low.toUInt8⟩

namespace IPv6

/-- A group without leading zeros. -/
def groupText (g : UInt16) : String := String.ofList (Nat.toDigits 16 g.toNat)

/-- Groups between colons. -/
def groupsText (gs : List UInt16) : String := ":".intercalate (gs.map groupText)

/-- A row of zero groups: where it starts, and how many groups it has. -/
structure ZeroRow where
  start : Nat
  length : Nat
  deriving DecidableEq, Repr

/-- The first of the longest rows of zeros among `gs`, which begin at `index`; `current` is the row
that has just ended or is still going on, and `best` the longest so far. -/
def longestZeros (index : Nat) (current best : ZeroRow) : List UInt16 → ZeroRow
  | [] => best
  | g :: gs =>
    if g = 0 then
      let row : ZeroRow :=
        if current.length = 0 then ⟨index, 1⟩ else ⟨current.start, current.length + 1⟩
      longestZeros (index + 1) row (if best.length < row.length then row else best) gs
    else longestZeros (index + 1) ⟨0, 0⟩ best gs

/-- The groups of a host address, with the longest row of zeros left out. An address that stands for
one of the fourth version ends in its numbers. -/
def text (a : IPv6) : String :=
  match a.groups with
  | [0, 0, 0, 0, 0, 0xFFFF, high, low] =>
    "::ffff:" ++ (IPv4.ofGroups high low).text
  | gs =>
    let row := longestZeros 0 ⟨0, 0⟩ ⟨0, 0⟩ gs
    if 2 ≤ row.length then
      groupsText (gs.take row.start) ++ "::" ++ groupsText (gs.drop (row.start + row.length))
    else groupsText gs

end IPv6

/-- The text of a socket address. -/
def SocketAddress.text : SocketAddress → String
  | v4 host port => host.text ++ ":" ++ port.toNat.repr
  | v6 host scope port =>
    let zone := if scope = 0 then "" else "%" ++ scope.toNat.repr
    "[" ++ host.text ++ zone ++ "]:" ++ port.toNat.repr

/-! ## Reading

A reader takes something from the front of a text and gives it with what follows; where it finds
nothing to take, it gives nothing.
-/

/-- Takes one given character. -/
def character? (c : Char) : List Char → Option (List Char)
  | [] => none
  | d :: cs => if d = c then some cs else none

/-- Takes a number below `bound`, of any number of digits. -/
def boundedNumber? (bound : Nat) (cs : List Char) : Option (Nat × List Char) :=
  match Digits.leading 10 cs with
  | ([], _) => none
  | (ds, rest) => if Digits.number 10 ds < bound then some (Digits.number 10 ds, rest) else none

/-- Takes one of the four numbers: up to three digits, the first not a zero unless it is alone. -/
def IPv4.number? (cs : List Char) : Option (UInt8 × List Char) :=
  match Digits.leading 10 cs with
  | ([], _) => none
  | (d :: ds, rest) =>
    let n := Digits.number 10 (d :: ds)
    if ds.length < 3 ∧ (d ≠ 0 ∨ ds = []) ∧ n < 256 then some (UInt8.ofNat n, rest) else none

/-- Takes a host address of the fourth version. -/
def IPv4.read? (cs : List Char) : Option (IPv4 × List Char) := do
  let (a, cs) ← number? cs
  let (b, cs) ← number? (← character? '.' cs)
  let (c, cs) ← number? (← character? '.' cs)
  let (d, cs) ← number? (← character? '.' cs)
  return (⟨a, b, c, d⟩, cs)

namespace IPv6

/-- Takes a group of up to four digits. -/
def group? (cs : List Char) : Option (UInt16 × List Char) :=
  match Digits.leading 16 cs with
  | ([], _) => none
  | (ds, rest) => if ds.length ≤ 4 then some (UInt16.ofNat (Digits.number 16 ds), rest) else none

/-- Takes the colon in front of every group but the first. -/
def separator? (isFirst : Bool) (cs : List Char) : Option (List Char) :=
  if isFirst then some cs else character? ':' cs

/-- The groups at the front of a text, and whether they end in the numbers of the fourth version,
which stand for two groups. -/
structure Groups where
  groups : List UInt16
  endsInNumbers : Bool
  rest : List Char

/-- Takes up to `room` groups. -/
def readGroups (isFirst : Bool) : (room : Nat) → List Char → Groups
  | 0, cs => ⟨[], false, cs⟩
  | room + 1, cs =>
    match if room = 0 then none else (separator? isFirst cs).bind IPv4.read? with
    | some (a, rest) =>
      let group (high low : UInt8) : UInt16 := high.toUInt16 <<< 8 ||| low.toUInt16
      ⟨[group a.first a.second, group a.third a.fourth], true, rest⟩
    | none =>
      match (separator? isFirst cs).bind group? with
      | none => ⟨[], false, cs⟩
      | some (g, rest) =>
        let more := readGroups false room rest
        ⟨g :: more.groups, more.endsInNumbers, more.rest⟩

/-- Eight groups, or none for any other number of them. -/
def ofGroups? (gs : List UInt16) : Option IPv6 :=
  if h : gs.length = 8 then some ⟨gs, h⟩ else none

/-- Takes a host address of the sixth version: eight groups, or fewer with two colons for those that
are left out. -/
def read? (cs : List Char) : Option (IPv6 × List Char) := do
  let head := readGroups true 8 cs
  if head.groups.length = 8 then return (← ofGroups? head.groups, head.rest)
  if head.endsInNumbers then none
  let rest ← character? ':' (← character? ':' head.rest)
  let tail := readGroups true (7 - head.groups.length) rest
  let left := 8 - head.groups.length - tail.groups.length
  return (← ofGroups? (head.groups ++ List.replicate left 0 ++ tail.groups), tail.rest)

end IPv6

namespace SocketAddress

/-- Takes a colon and a port. -/
def port? (cs : List Char) : Option (UInt16 × List Char) := do
  let (n, rest) ← boundedNumber? UInt16.size (← character? ':' cs)
  return (UInt16.ofNat n, rest)

/-- Takes a percent sign and a scope; where there is none, the scope is zero. -/
def scope (cs : List Char) : UInt32 × List Char :=
  match (character? '%' cs).bind (boundedNumber? UInt32.size) with
  | some (n, rest) => (UInt32.ofNat n, rest)
  | none => (0, cs)

/-- Takes an address of the fourth version. -/
def readV4? (cs : List Char) : Option (SocketAddress × List Char) := do
  let (host, cs) ← IPv4.read? cs
  let (port, cs) ← port? cs
  return (v4 host port, cs)

/-- Takes an address of the sixth version. -/
def readV6? (cs : List Char) : Option (SocketAddress × List Char) := do
  let (host, cs) ← IPv6.read? (← character? '[' cs)
  let (zone, cs) := scope cs
  let (port, cs) ← port? (← character? ']' cs)
  return (v6 host zone port, cs)

/-- The address that fills the text. -/
def ofText? (text : String) : Option SocketAddress :=
  match (readV4? text.toList).orElse fun _ => readV6? text.toList with
  | some (a, []) => some a
  | _ => none

end SocketAddress
end PacketRpc
