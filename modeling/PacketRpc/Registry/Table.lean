import PacketRpc.Error
import PacketRpc.Text.Quoted

/-!
# Registries of packets of any kind

Which packet types there are is open: whoever brings one says what its packets are called, which
hash they carry and how a blank one is made (`PacketFamily`). A table keeps that for the first type
that asks for a hash. Its entries have no order of their own; they are sorted when they are listed.
-/

namespace PacketRpc

/-- Packets of many types. A blank packet is of the type that it is made for, and all packets of a
type carry the same hash. -/
class PacketFamily (T : Type) (P : outParam Type) where
  /-- The type of a packet. -/
  type : P → T
  /-- The packet of a type in which every field has its default. -/
  blank : T → P
  name : P → String
  hash : P → PacketHash
  type_blank : ∀ t, type (blank t) = t
  hash_blank : ∀ p, hash (blank (type p)) = hash p

/-- What is kept of a packet type. -/
structure TableEntry (T P : Type) where
  name : String
  type : T
  /-- Makes a blank packet. -/
  make : Unit → P

/-- What stands behind which hash, in no particular order. -/
structure PacketTable (T P : Type) where
  entries : List (PacketHash × TableEntry T P) := []

namespace PacketTable

open PacketFamily (blank hash name type)

variable {T P : Type} [DecidableEq T] [PacketFamily T P]

/-- What stands behind a hash. -/
def entryAt? (r : PacketTable T P) (h : PacketHash) : Option (TableEntry T P) := r.entries.lookup h

/-- Registers a packet type under the hash of a blank packet. Registering a type again changes
nothing; a type whose hash is reserved or belongs to another type is refused. -/
def register (r : PacketTable T P) (t : T) : Except ProtocolError Unit × PacketTable T P :=
  let prototype : P := blank t
  if (hash T prototype).isNull then (.error .nullPacket, r)
  else match r.entryAt? (hash T prototype) with
    | some e =>
      if e.type = t then (.ok (), r)
      else (.error (.duplicateHash (hash T prototype) e.name (name T prototype)), r)
    | none =>
      (.ok (), ⟨(hash T prototype, ⟨name T prototype, t, fun _ => blank t⟩) :: r.entries⟩)

/-- A blank packet of the type behind a hash. -/
def newInstance (r : PacketTable T P) (h : PacketHash) : Except ProtocolError P :=
  match r.entryAt? h with
  | some e => .ok (e.make ())
  | none => .error (.unknownHash h)

/-- True when the very type of the packet is registered, not only its hash. -/
def knows (r : PacketTable T P) (p : P) : Bool :=
  (r.entryAt? (hash T p)).any fun e => decide (e.type = type p)

/-- True when the hash belongs to some type. -/
def contains (r : PacketTable T P) (h : PacketHash) : Bool := (r.entryAt? h).isSome

/-- The name of the packets behind a hash. -/
def nameOf? (r : PacketTable T P) (h : PacketHash) : Option String := (r.entryAt? h).map (·.name)

/-- The number of registered hashes. -/
def size (r : PacketTable T P) : Nat := r.entries.length

/-- True when nothing is registered. -/
def isEmpty (r : PacketTable T P) : Bool := r.entries.isEmpty

/-- The order of the lines of a listing: by hash, then by name. -/
def rowLE (a b : PacketHash × String) : Bool :=
  decide (a.1.value < b.1.value) || (decide (a.1 = b.1) && !decide (b.2 < a.2))

/-- The lines of a listing, from entries in whatever order they come. -/
def rows (entries : List (PacketHash × TableEntry T P)) : List (PacketHash × String) :=
  (entries.map fun e => (e.1, e.2.name)).mergeSort rowLE

/-- All entries with hash and name, in order. -/
def listing (r : PacketTable T P) : String :=
  "\x7b" ++ ", ".intercalate ((rows r.entries).map fun e => e.1.listing ++ ": " ++ Text.quoted e.2)
    ++ "\x7d"

end PacketTable
end PacketRpc
