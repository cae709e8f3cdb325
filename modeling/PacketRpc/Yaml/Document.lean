import PacketRpc.Yaml.Node
import PacketRpc.Yaml.Written

/-!
# Documents

A text is one document: directives, a node and marks around them, most of which may be left out. A
text without a document is taken for one without content. Readers of a document see through names
and aliases.
-/

namespace PacketRpc.Yaml

/-- A document, by its node. -/
structure Document where
  root : Node

namespace Document

/-! ## Reading -/

/-- The directives before a document, and the tokens behind them. -/
def directives : List Token → List Directive × List Token
  | .directive d :: ts => (d :: (directives ts).1, (directives ts).2)
  | ts => ([], ts)

/-- What directives say that handles stand for, and what they stand for without being said. Nothing
if something is said twice. -/
def handles? (ds : List Directive) : Option (List (List Char × List Char)) :=
  let said := ds.filterMap fun
    | .handle handle front => some (handle, front)
    | .version => none
  if (said.map Prod.fst).Nodup ∧ (ds.filter (· == .version)).length ≤ 1 then
    some (said ++ [(['!'], ['!']), (['!', '!'], "tag:yaml.org,2002:".toList)])
  else none

/-- True where the content of a document may be left out. -/
def isContentEnd : List Token → Bool
  | [] | .directive _ :: _ | .documentStart :: _ | .documentEnd :: _ => true
  | _ => false

/-- The node of a document that begins with a mark, after its directives. -/
def marked? (ds : List Directive) (ts : List Token) : Option (Node × List Token) := do
  let handles ← handles? ds
  if isContentEnd ts then return (.nothing, ts)
  let (n, r) ← Node.Reader.node? true false { tokens := ts, handles } (3 * ts.length + 3)
  return (n, r.tokens)

/-- The node of a document that begins with its content. -/
def unmarked? (ts : List Token) : Option (Node × List Token) := do
  let (n, r) ← Node.Reader.node? true false { tokens := ts, handles := ← handles? [] }
    (3 * ts.length + 3)
  return (n, r.tokens)

/-- The document that tokens make. Only marks of its end may stand behind it. -/
def ofTokens? (ts : List Token) : Option Document := do
  let (n, rest) ← match directives ts with
    | ([], []) => some (.nothing, [])
    | (ds, .documentStart :: rest) => marked? ds rest
    | ([], ts) => unmarked? ts
    | _ => none
  if rest.all (· == .documentEnd) then return ⟨n⟩ else none

/-- The document that a text is. -/
def ofText? (text : String) : Option Document := (Token.ofText? text).bind ofTokens?

/-! ## Content -/

/-- What stands at a node: the node itself without its name, or the one that an alias means. -/
def target (d : Document) : Node → Node
  | .anchored _ n => n
  | .aliasOf number => (d.root.named.reverse.lookup number).getD .nothing
  | n => n

/-- The text of a scalar. -/
def text? (d : Document) (n : Node) : Option String :=
  match d.target n with
  | .scalar _ _ text => some (String.ofList text)
  | _ => none

/-- The entries of a mapping whose keys are all scalars. Where nothing stands, there are no
entries. -/
def entries? (d : Document) (n : Node) : Option (List (String × Node)) :=
  match d.target n with
  | .mapping entries => entries.mapM fun e => do return (← d.text? e.1, e.2)
  | .scalar .plain _ [] => some []
  | _ => none

/-- The digits after a radix mark, or none without the mark. -/
def marking? (mark : Char) (cs : List Char) : Option (List Char) :=
  match cs with
  | '0' :: c :: rest => if c = mark then some rest else none
  | _ => none

/-- The number that a text stands for: in decimal, without needless zeros at its front, or after
`0x`, `0o` or `0b` in another radix. A plus sign may come first. -/
def number? (text : List Char) : Option Nat :=
  let cs := match text with
    | '+' :: cs => cs
    | cs => cs
  let inRadix (mark : Char) (radix : Nat) := (marking? mark cs).bind (Digits.whole? radix)
  let decimal := match cs with
    | '0' :: _ :: _ => none
    | cs => Digits.whole? 10 cs
  (inRadix 'x' 16).or ((inRadix 'o' 8).or ((inRadix 'b' 2).or decimal))

/-- The tag of whole numbers. -/
def wholeTag : List Char := "tag:yaml.org,2002:int".toList

/-- The number below `bound` that a scalar stands for. It is written plain, or as a literal block
with the tag of whole numbers. -/
def unsigned? (d : Document) (bound : Nat) (n : Node) : Option Nat :=
  match d.target n with
  | .scalar .plain _ text => (number? text).filter (· < bound)
  | .scalar .literal tag text =>
    if tag = some wholeTag then (number? text).filter (· < bound) else none
  | _ => none

/-- The library of what is read and written here. A value is a node and the document around it. -/
def library : Library where
  Value := Document × Node
  parse? text := (ofText? text).map fun d => (d, d.root)
  entries? v := (v.1.entries? v.2).map fun es => es.map fun e => (e.1, v.1, e.2)
  text? v := v.1.text? v.2
  uint32? v := (v.1.unsigned? UInt32.size v.2).map UInt32.ofNat
  uint64? v := (v.1.unsigned? UInt64.size v.2).map UInt64.ofNat
  complaint _ := "not a settings file"
  emit := Content.emit

end Document
end PacketRpc.Yaml
