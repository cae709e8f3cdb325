/-!
# Digits

Whole numbers as rows of digits: taking the digits at the front of a text, the number they stand
for, and numbers that fill a whole text.
-/

namespace PacketRpc.Digits

/-- The value of a digit in a radix of at most sixteen; letters count in either case. -/
def value? (radix : Nat) (c : Char) : Option Nat :=
  let v :=
    if '0' ≤ c ∧ c ≤ '9' then c.toNat - 48
    else if 'a' ≤ c ∧ c ≤ 'f' then c.toNat - 87
    else if 'A' ≤ c ∧ c ≤ 'F' then c.toNat - 55
    else 16
  if v < radix ∧ v < 16 then some v else none

/-- The digits at the front, and what follows them. -/
def leading (radix : Nat) : List Char → List Nat × List Char
  | [] => ([], [])
  | c :: cs =>
    match value? radix c with
    | some v => (v :: (leading radix cs).1, (leading radix cs).2)
    | none => ([], c :: cs)

/-- The number that digits stand for, the most significant first. -/
def number (radix : Nat) (ds : List Nat) : Nat := ds.foldl (fun n d => n * radix + d) 0

/-- The number whose digits fill the text; an empty text is none. -/
def whole? (radix : Nat) (cs : List Char) : Option Nat :=
  match leading radix cs with
  | (d :: ds, []) => some (number radix (d :: ds))
  | _ => none

/-- The number below `bound` that a text stands for: decimal digits, perhaps after a plus sign. -/
def unsigned? (bound : Nat) (text : String) : Option Nat :=
  let digits := match text.toList with
    | '+' :: cs => cs
    | cs => cs
  (whole? 10 digits).filter (· < bound)

end PacketRpc.Digits
