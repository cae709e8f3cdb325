/-!
# Durations

A span of time in whole nanoseconds. It is shown in the largest unit of which it holds at least
one, with the rest as decimals but no zeros at their end.
-/

namespace PacketRpc

/-- A span of time. -/
structure Duration where
  nanoseconds : Nat
  deriving DecidableEq, Repr, Inhabited

namespace Duration

/-- A number of milliseconds. -/
def ofMilliseconds (n : Nat) : Duration := ⟨n * 1000000⟩

/-- The whole milliseconds of a span. -/
def milliseconds (d : Duration) : Nat := d.nanoseconds / 1000000

/-- The decimals of `rest / 10 ^ places`, without the zeros at their end. -/
def decimals (rest : Nat) : (places : Nat) → String
  | 0 => ""
  | places + 1 =>
    if rest = 0 then ""
    else (rest / Nat.pow 10 places).repr ++ decimals (rest % Nat.pow 10 places) places

/-- The number of units of `10 ^ places` nanoseconds, with decimals. -/
def inUnit (d : Duration) (places : Nat) : String :=
  let whole := (d.nanoseconds / Nat.pow 10 places).repr
  let rest := d.nanoseconds % Nat.pow 10 places
  if rest = 0 then whole else whole ++ "." ++ decimals rest places

/-- The text of a span. -/
def text (d : Duration) : String :=
  if 1000000000 ≤ d.nanoseconds then d.inUnit 9 ++ "s"
  else if 1000000 ≤ d.nanoseconds then d.inUnit 6 ++ "ms"
  else if 1000 ≤ d.nanoseconds then d.inUnit 3 ++ "µs"
  else d.inUnit 0 ++ "ns"

end Duration
end PacketRpc
