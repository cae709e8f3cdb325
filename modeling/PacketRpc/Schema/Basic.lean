/-!
# Schemas

A schema gives the shape of a packet: its name and its fields, declared in any order. Packets are
written, shown and hashed with their fields in the order of their names.
-/

namespace PacketRpc

/-- An enumeration: its name and its members in the order of their ordinals. -/
structure EnumSchema where
  name : String
  members : List String
  deriving DecidableEq, Repr, Inhabited

/-- True of an enumeration whose ordinals take two bytes. -/
def EnumSchema.isLarge (e : EnumSchema) : Bool := decide (255 < e.members.length)

/-- The type of a field. Unsigned types are written like signed ones. -/
inductive FieldType
  | bool
  | byte
  | ubyte
  | short
  | ushort
  | int
  | long
  | float
  | double
  | string
  /-- A reference to a packet of any type. -/
  | packet
  | enumeration (schema : EnumSchema)
  /-- A packet of one type, given by its name and fields, without its hash. -/
  | embedded (name : String) (fields : List (String × FieldType))
  | array (element : FieldType)
  deriving Inhabited

/-- A packet: its name and its fields as declared. -/
structure PacketSchema where
  name : String
  fields : List (String × FieldType)
  deriving Inhabited

/-- The type of a field that embeds a packet. -/
def PacketSchema.embed (s : PacketSchema) : FieldType := .embedded s.name s.fields

namespace FieldType

/-- Induction over types, where the types of the fields of an embedded packet are its parts. -/
@[induction_eliminator]
theorem induct {P : FieldType → Prop} (bool : P bool) (byte : P byte) (ubyte : P ubyte)
    (short : P short) (ushort : P ushort) (int : P int) (long : P long) (float : P float)
    (double : P double) (string : P string) (packet : P packet)
    (enumeration : ∀ e, P (enumeration e))
    (embedded : ∀ name fields, (∀ f ∈ fields, P f.2) → P (embedded name fields))
    (array : ∀ t, P t → P (array t)) (t : FieldType) : P t := by
  refine @FieldType.rec P (fun fields => ∀ f ∈ fields, P f.2) (fun f => P f.2)
    bool byte ubyte short ushort int long float double string packet enumeration embedded array
    (fun _ h => absurd h List.not_mem_nil) ?_ (fun _ _ h => h) t
  intro f fields hf hfs g hg
  rcases List.mem_cons.1 hg with rfl | hg
  · exact hf
  · exact hfs g hg

/-- True of the unsigned types themselves. -/
def isUnsigned : FieldType → Bool
  | ubyte | ushort => true
  | _ => false

mutual

/-- Equality of types, with fields compared as declared. -/
def same : FieldType → FieldType → Bool
  | bool, bool | byte, byte | ubyte, ubyte | short, short | ushort, ushort | int, int
  | long, long | float, float | double, double | string, string | packet, packet => true
  | enumeration a, enumeration b => a == b
  | embedded a fs, embedded b gs => a == b && sameFields fs gs
  | array a, array b => same a b
  | _, _ => false

/-- Equality of lists of fields. -/
def sameFields : List (String × FieldType) → List (String × FieldType) → Bool
  | [], [] => true
  | (a, s) :: fs, (b, t) :: gs => a == b && same s t && sameFields fs gs
  | _, _ => false

end

end FieldType

/-- Equality of schemas: the order in which fields are declared counts. -/
def PacketSchema.same (a b : PacketSchema) : Bool :=
  a.name == b.name && FieldType.sameFields a.fields b.fields

/-- Fields in the order of the UTF-8 bytes of their names, which is that of their characters;
fields of one name stay in the order of declaration. -/
def inWireOrder {α : Type} (fields : List (String × α)) : List (String × α) :=
  fields.mergeSort fun f g => !decide (g.1 < f.1)

theorem inWireOrder_perm {α : Type} (fields : List (String × α)) :
    (inWireOrder fields).Perm fields := List.mergeSort_perm _ _

theorem mem_inWireOrder {α : Type} {fields : List (String × α)} {f : String × α} :
    f ∈ inWireOrder fields ↔ f ∈ fields := (inWireOrder_perm fields).mem_iff

/-- The fields of a packet in wire order. -/
def PacketSchema.wireFields (s : PacketSchema) : List (String × FieldType) := inWireOrder s.fields

end PacketRpc
