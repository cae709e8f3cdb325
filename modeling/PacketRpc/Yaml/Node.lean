import PacketRpc.Yaml.Token

/-!
# Nodes

Tokens make a node: a scalar, a sequence or a mapping. A node with a name can stand in several
places, even within itself; each further place holds an alias, which knows the node by a number.
Where a node may be left out and nothing stands, there is an empty plain scalar.
-/

namespace PacketRpc.Yaml

/-- A node. -/
inductive Node
  | scalar (style : Style) (tag : Option (List Char)) (text : List Char)
  | sequence (items : List Node)
  | mapping (entries : List (Node × Node))
  /-- A node with a name, known by a number. -/
  | anchored (number : Nat) (node : Node)
  /-- The last node that is known by a number. -/
  | aliasOf (number : Nat)

namespace Node

/-- The node where nothing stands. -/
def nothing : Node := .scalar .plain none []

mutual

/-- The nodes within a node that have names, with their numbers, as they begin. -/
def named : Node → List (Nat × Node)
  | scalar .. | aliasOf _ => []
  | sequence items => namedItems items
  | mapping entries => namedEntries entries
  | anchored number node => (number, node) :: named node

/-- The nodes within items that have names. -/
def namedItems : List Node → List (Nat × Node)
  | [] => []
  | n :: ns => named n ++ namedItems ns

/-- The nodes within entries that have names. -/
def namedEntries : List (Node × Node) → List (Nat × Node)
  | [] => []
  | (k, v) :: es => named k ++ named v ++ namedEntries es

end

/-! ## Reading -/

/-- A reader of nodes. -/
structure Reader where
  tokens : List Token
  /-- What handles of tags stand for. -/
  handles : List (List Char × List Char)
  /-- The names given so far, each with the number of the node that it means. -/
  names : List (List Char × Nat) := []

/-- What is said about a node before it. -/
structure Properties where
  number : Option Nat := none
  tag : Option (List Char) := none

namespace Properties

/-- True when nothing is said. -/
def isEmpty (p : Properties) : Bool := p.number.isNone && p.tag.isNone

/-- A node with its name, if it has one. -/
def name (p : Properties) (n : Node) : Node :=
  match p.number with
  | some number => .anchored number n
  | none => n

end Properties

namespace Reader

/-- Goes on with other tokens. -/
def goOn (r : Reader) (ts : List Token) : Reader := { r with tokens := ts }

/-- A tag in full; nothing if its handle stands for nothing. -/
def tag? (r : Reader) (t : TagText) : Option (List Char) :=
  if t.handle.isEmpty then some t.rest else (r.handles.lookup t.handle).map (· ++ t.rest)

/-- Takes a name, if one is given here. Its number is that of the names before it; a name that is
given anew loses its old meaning. -/
def takeName (r : Reader) : Option Nat × Reader :=
  match r.tokens with
  | .anchor name :: ts =>
    let number := r.names.length
    (some number, { r with
      tokens := ts
      names := (name, number) :: r.names.filter (·.1 != name) })
  | _ => (none, r)

/-- Takes a tag, if one stands here; nothing if it is wrong. -/
def takeTag? (r : Reader) : Option (Option (List Char) × Reader) :=
  match r.tokens with
  | .tag t :: ts => (r.tag? t).map fun tag => (some tag, r.goOn ts)
  | _ => some (none, r)

/-- Takes what is said about a node: a name and a tag, in either order. -/
def takeProperties? (r : Reader) : Option (Properties × Reader) := do
  match r.takeName with
  | (some number, r) =>
    let (tag, r) ← r.takeTag?
    return (⟨some number, tag⟩, r)
  | (none, r) =>
    let (tag, r) ← r.takeTag?
    if tag.isNone then return ({}, r)
    let (number, r) := r.takeName
    return (⟨number, tag⟩, r)

/-- True where the node of an item may be left out in block style; in a sequence that is indented no
further than its key, also before the next key. -/
def isItemEnd (indented : Bool) : List Token → Bool
  | .item :: _ | .blockEnd :: _ => true
  | .key :: _ | .value :: _ => !indented
  | _ => false

/-- True where a key or a value may be left out in block style. -/
def isEntryEnd : List Token → Bool
  | .key :: _ | .value :: _ | .blockEnd :: _ => true
  | _ => false

/-- True where a value may be left out in flow style, in a collection that ends with `close`. -/
def isFlowEnd (close : Token) : List Token → Bool
  | t :: _ => t == .comma || t == close
  | [] => false

/-- True where a key may be left out in flow style. -/
def isFlowKeyEnd (close : Token) : List Token → Bool
  | .value :: _ => true
  | ts => isFlowEnd close ts

mutual

/-- Takes a node. Collections in block style are taken only if `block` says so, and sequences that
are indented no further than their key only if `afterKey` does. -/
def node? (block afterKey : Bool) (r : Reader) : (depth : Nat) → Option (Node × Reader)
  | 0 => none
  | depth + 1 =>
    match r.tokens with
    | .aliasOf name :: ts => (r.names.lookup name).map fun number => (.aliasOf number, r.goOn ts)
    | _ => do
      let (p, r) ← r.takeProperties?
      match r.tokens with
      | .scalar style text :: ts => return (p.name (.scalar style p.tag text), r.goOn ts)
      | .flowSequence :: ts =>
        let (items, r) ← flowItems? true (r.goOn ts) depth
        return (p.name (.sequence items), r)
      | .flowMapping :: ts =>
        let (entries, r) ← flowEntries? true (r.goOn ts) depth
        return (p.name (.mapping entries), r)
      | ts =>
        match afterKey, block, ts with
        | true, _, .item :: _ =>
          let (items, r) ← blockItems? false r depth
          return (p.name (.sequence items), r)
        | _, true, .blockSequence :: ts =>
          let (items, r) ← blockItems? true (r.goOn ts) depth
          return (p.name (.sequence items), r)
        | _, true, .blockMapping :: ts =>
          let (entries, r) ← blockEntries? (r.goOn ts) depth
          return (p.name (.mapping entries), r)
        | _, _, _ =>
          if p.isEmpty then none else return (p.name (.scalar .plain p.tag []), r)

/-- Takes the items of a sequence in block style. One that is indented further than its key ends
with a token of its own. -/
def blockItems? (indented : Bool) (r : Reader) : (depth : Nat) → Option (List Node × Reader)
  | 0 => none
  | depth + 1 =>
    match r.tokens with
    | .item :: ts => do
      let (item, r) ← if isItemEnd indented ts then some (.nothing, r.goOn ts)
        else node? true false (r.goOn ts) depth
      let (items, r) ← blockItems? indented r depth
      return (item :: items, r)
    | .blockEnd :: ts => some ([], if indented then r.goOn ts else r)
    | _ => if indented then none else some ([], r)

/-- Takes the key or the value of an entry in block style. -/
def entryNode? (r : Reader) : (depth : Nat) → Option (Node × Reader)
  | 0 => none
  | depth + 1 =>
    if isEntryEnd r.tokens then some (.nothing, r) else node? true true r depth

/-- Takes the entries of a mapping in block style, and its end. -/
def blockEntries? (r : Reader) : (depth : Nat) → Option (List (Node × Node) × Reader)
  | 0 => none
  | depth + 1 =>
    match r.tokens with
    | .key :: ts => do
      let (key, r) ← entryNode? (r.goOn ts) depth
      let (value, r) ← match r.tokens with
        | .value :: ts => entryNode? (r.goOn ts) depth
        | _ => some (.nothing, r)
      let (entries, r) ← blockEntries? r depth
      return ((key, value) :: entries, r)
    | .blockEnd :: ts => some ([], r.goOn ts)
    | _ => none

/-- Takes the colon and the value of an entry in flow style, either of which may be left out. -/
def flowValue? (close : Token) (r : Reader) : (depth : Nat) → Option (Node × Reader)
  | 0 => none
  | depth + 1 =>
    match r.tokens with
    | .value :: ts =>
      if isFlowEnd close ts then some (.nothing, r.goOn ts)
      else node? false false (r.goOn ts) depth
    | _ => some (.nothing, r)

/-- Takes the items of a sequence in flow style, and its end. An entry of a mapping is an item of
its own; where its key is left out, so is the token behind. -/
def flowItems? (isFirst : Bool) (r : Reader) : (depth : Nat) → Option (List Node × Reader)
  | 0 => none
  | depth + 1 =>
    match isFirst, r.tokens with
    | _, .flowSequenceEnd :: ts => some ([], r.goOn ts)
    | false, .comma :: .flowSequenceEnd :: ts => some ([], r.goOn ts)
    | false, .comma :: ts | true, ts => do
      let (item, r) ← match ts with
        | .key :: ts => do
          let (key, r) ←
            if isFlowKeyEnd .flowSequenceEnd ts then some (.nothing, r.goOn (ts.drop 1))
            else node? false false (r.goOn ts) depth
          let (value, r) ← flowValue? .flowSequenceEnd r depth
          pure (Node.mapping [(key, value)], r)
        | ts => node? false false (r.goOn ts) depth
      let (items, r) ← flowItems? false r depth
      return (item :: items, r)
    | _, _ => none

/-- Takes the entries of a mapping in flow style, and its end. A node that no key sign stands before
is a key whose value is left out. -/
def flowEntries? (isFirst : Bool) (r : Reader) :
    (depth : Nat) → Option (List (Node × Node) × Reader)
  | 0 => none
  | depth + 1 =>
    match isFirst, r.tokens with
    | _, .flowMappingEnd :: ts => some ([], r.goOn ts)
    | false, .comma :: .flowMappingEnd :: ts => some ([], r.goOn ts)
    | false, .comma :: ts | true, ts => do
      let (entry, r) ← match ts with
        | .key :: ts => do
          let (key, r) ← if isFlowKeyEnd .flowMappingEnd ts then some (.nothing, r.goOn ts)
            else node? false false (r.goOn ts) depth
          let (value, r) ← flowValue? .flowMappingEnd r depth
          pure ((key, value), r)
        | ts => do
          let (key, r) ← node? false false (r.goOn ts) depth
          pure ((key, Node.nothing), r)
      let (entries, r) ← flowEntries? false r depth
      return (entry :: entries, r)
    | _, _ => none

end

end Reader
end Node
end PacketRpc.Yaml
