import PacketRpc.Packet.Basic

/-!
# Registries

A registry says which packet type stands behind a hash. Entries are kept in the signed order of
their hashes. A hash belongs to the first type that asks for it, and the reserved hash to none.
-/

namespace PacketRpc

/-- Which packet type stands behind which hash, in ascending order of the hashes. -/
structure Registry where
  entries : List (PacketHash × PacketType)
  deriving Inhabited, DecidableEq

namespace Registry

/-- Knows no packet. -/
def empty : Registry := ⟨[]⟩

/-- The number of registered hashes. -/
def size (r : Registry) : Nat := r.entries.length

/-- The packet type behind a hash. -/
def typeOf? (r : Registry) (h : PacketHash) : Option PacketType := r.entries.lookup h

/-- Puts an entry before the first one of a greater hash. -/
def insertEntry (h : PacketHash) (t : PacketType) :
    List (PacketHash × PacketType) → List (PacketHash × PacketType)
  | [] => [(h, t)]
  | e :: es => if h.value < e.1.value then (h, t) :: e :: es else e :: insertEntry h t es

/-- Registers a packet type under its hash. Registering a type again changes nothing; a type whose
hash is reserved or belongs to another type is refused. -/
def register (r : Registry) (t : PacketType) : Except ProtocolError Registry :=
  if t.hash.isNull then .error .nullPacket
  else match r.typeOf? t.hash with
    | none => .ok ⟨insertEntry t.hash t r.entries⟩
    | some other =>
      if other = t then .ok r else .error (.duplicateHash t.hash other.name t.name)

/-- Registers types in turn, up to the first that is refused; those before it stay registered. -/
def registerAll (r : Registry) : List PacketType → Except ProtocolError Unit × Registry
  | [] => (.ok (), r)
  | t :: ts =>
    match r.register t with
    | .ok r => registerAll r ts
    | .error e => (.error e, r)

/-- The registry of the given types; those that are refused are left out. -/
def ofTypes (ts : List PacketType) : Registry :=
  ts.foldl (fun r t => (r.register t).toOption.getD r) empty

/-- A blank packet of the type behind a hash. -/
def newInstance (r : Registry) (h : PacketHash) : Except ProtocolError Packet :=
  match r.typeOf? h with
  | some t => .ok t.blank
  | none => .error (.unknownHash h)

/-- True when the very type of the packet is registered, not only its hash. -/
def knows (r : Registry) (p : Packet) : Bool := r.typeOf? p.hash == some p.type

/-- True when the hash belongs to some type. -/
def contains (r : Registry) (h : PacketHash) : Bool := (r.typeOf? h).isSome

/-- The name of the packets behind a hash. -/
def nameOf? (r : Registry) (h : PacketHash) : Option String := (r.typeOf? h).map PacketType.name

/-- All entries with hash and name, in order. -/
def listing (r : Registry) : String :=
  "\x7b" ++ ", ".intercalate (r.entries.map fun e => e.1.listing ++ ": \"" ++ e.2.name ++ "\"")
    ++ "\x7d"

end Registry
end PacketRpc
