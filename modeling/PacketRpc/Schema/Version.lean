import PacketRpc.Schema.Basic
import PacketRpc.Bytes.Digest
import PacketRpc.Packet.Hash

/-!
# Version strings

The version string of a packet spells out its shape: its name and, for each field in wire order,
the name and type of the field. An embedded packet is spelled out in braces where it first occurs;
where its name has been met before, it is cut short. The hash of a packet is the first half of the
digest of its version string.
-/

namespace PacketRpc

/-- The spelling of an enumeration: its name and its members. -/
def EnumSchema.version (e : EnumSchema) : String :=
  "\x7b" ++ e.name ++ String.join (e.members.map ("+" ++ ·)) ++ "\x7d"

/-- A version string so far, and the packet names met in it. -/
structure Spelling where
  text : String := ""
  seen : List String := []

namespace Spelling

/-- Goes on with a text. -/
def put (s : Spelling) (t : String) : Spelling := { s with text := s.text ++ t }

/-- Goes on with the name of a packet, which is met by this. -/
def enter (s : Spelling) (name : String) : Spelling :=
  { text := s.text ++ name, seen := name :: s.seen }

/-- Goes on with an embedded packet behind `mark`: in full by `fields`, or cut short when a packet
of its name has been met. -/
def packet (s : Spelling) (mark name : String) (fields : Spelling → Spelling) : Spelling :=
  if s.seen.contains name then s.put ("\x7b" ++ mark ++ name ++ "+...\x7d")
  else (fields ((s.put ("\x7b" ++ mark)).enter name)).put "\x7d"

end Spelling

namespace FieldType

/-- The name of a type without parts; empty for the others. -/
def primitiveName : FieldType → String
  | bool => "bool"
  | byte => "byte"
  | ubyte => "ubyte"
  | short => "short"
  | ushort => "ushort"
  | int => "int"
  | long => "long"
  | float => "float"
  | double => "double"
  | string => "string"
  | packet => "packet"
  | enumeration _ | embedded .. | array _ => ""

mutual

/-- The type with the fields of every embedded packet in wire order. -/
def sorted : FieldType → FieldType
  | embedded name fields => embedded name (inWireOrder (sortedEach fields))
  | array t => array (sorted t)
  | t => t

/-- The fields with their types sorted, in the same order as before. -/
def sortedEach : List (String × FieldType) → List (String × FieldType)
  | [] => []
  | (name, t) :: fields => (name, sorted t) :: sortedEach fields

end

mutual

/-- Goes on with a type, taking fields as they come. A sequence of sequences is marked once and
then spelled as what its elements hold. -/
def spell : FieldType → Spelling → Spelling
  | array (enumeration e), s => s.put ("[]" ++ e.version)
  | array (embedded name fields), s => s.packet "[]" name (spellFields fields)
  | array (array t), s => spell t (s.put "[]")
  | array t, s => s.put ("[]" ++ t.primitiveName)
  | enumeration e, s => s.put e.version
  | embedded name fields, s => s.packet "" name (spellFields fields)
  | t, s => s.put t.primitiveName

/-- Goes on with fields, taking them as they come. -/
def spellFields : List (String × FieldType) → Spelling → Spelling
  | [], s => s
  | (name, t) :: fields, s => spellFields fields (spell t (s.put ("+" ++ name ++ ":")))

end

end FieldType

/-- The hash of a version string: the first eight bytes of its digest. -/
def PacketHash.ofVersion (text : String) : PacketHash :=
  PacketHash.ofBytes ((Digest.md5 text.toUTF8.data.toList).take 8)

namespace PacketSchema

/-- The version string of a packet. -/
def version (s : PacketSchema) : String :=
  (FieldType.spellFields (inWireOrder (FieldType.sortedEach s.fields))
    (({} : Spelling).enter s.name)).text

/-- The hash that the shape of a packet has. -/
def hash (s : PacketSchema) : PacketHash := PacketHash.ofVersion s.version

end PacketSchema
end PacketRpc
