import PacketRpc.Packet.Basic

/-!
# Packets as fields

Any packet can be taken apart into its fields, each a name with a value of a kind that the field
types know, and put together again from fields. Fields stand in the order of their names.
-/

namespace PacketRpc

/-- The value of a field. -/
inductive FieldValue
  | bool (v : Bool)
  | byte (v : Int8)
  | ubyte (v : UInt8)
  | short (v : Int16)
  | ushort (v : UInt16)
  | int (v : Int32)
  | long (v : Int64)
  | float (v : Binary32)
  | double (v : Binary64)
  | string (v : String)
  /-- A packet referred to, or none. -/
  | packet (v : Option Packet)
  /-- A member of an enumeration, by its ordinal. -/
  | member (ordinal : UInt16)
  /-- An embedded packet, by its fields. -/
  | embedded (fields : List (String × FieldValue))
  | array (elements : List FieldValue)

/-- A type whose values can stand in a field. -/
class Fieldlike (α : Type) where
  toField : α → FieldValue
  ofField? : FieldValue → Option α

export Fieldlike (toField ofField?)

section
variable {α : Type}

instance : Fieldlike Bool := ⟨.bool, fun | .bool v => some v | _ => none⟩
instance : Fieldlike Int8 := ⟨.byte, fun | .byte v => some v | _ => none⟩
instance : Fieldlike UInt8 := ⟨.ubyte, fun | .ubyte v => some v | _ => none⟩
instance : Fieldlike Int16 := ⟨.short, fun | .short v => some v | _ => none⟩
instance : Fieldlike UInt16 := ⟨.ushort, fun | .ushort v => some v | _ => none⟩
instance : Fieldlike Int32 := ⟨.int, fun | .int v => some v | _ => none⟩
instance : Fieldlike Int64 := ⟨.long, fun | .long v => some v | _ => none⟩
instance : Fieldlike Binary32 := ⟨.float, fun | .float v => some v | _ => none⟩
instance : Fieldlike Binary64 := ⟨.double, fun | .double v => some v | _ => none⟩
instance : Fieldlike String := ⟨.string, fun | .string v => some v | _ => none⟩
instance : Fieldlike (Option Packet) := ⟨.packet, fun | .packet v => some v | _ => none⟩

instance : Fieldlike DemoColor :=
  ⟨fun c => .member (Enumerated.ordinal c), fun | .member o => Enumerated.ofOrdinal? o | _ => none⟩

instance : Fieldlike MeanKind :=
  ⟨fun k => .member (Enumerated.ordinal k), fun | .member o => Enumerated.ofOrdinal? o | _ => none⟩

/-- An ordinal may stand in a field even where no member has it. -/
instance {name : String} {count : Nat} : Fieldlike (Ordinal name count) :=
  ⟨fun o => .member o.value, fun | .member o => some ⟨o⟩ | _ => none⟩

instance [Fieldlike α] : Fieldlike (List α) :=
  ⟨fun as => .array (as.map toField), fun | .array vs => vs.mapM ofField? | _ => none⟩

end

/-- The value of the field of a name, or `missing` when there is no such field. A field that holds
another kind of value spoils the packet. -/
def fieldOr {α : Type} [Fieldlike α] (missing : α) (fields : List (String × FieldValue))
    (name : String) : Option α :=
  match fields.lookup name with
  | none => some missing
  | some v => ofField? v

instance : Fieldlike DemoInner where
  toField c := .embedded [("value", toField c.value)]
  ofField?
    | .embedded fields => do return ⟨← fieldOr 0 fields "value"⟩
    | _ => none

/-- The fields of a packet. -/
def Packet.fields : Packet → List (String × FieldValue)
  | .primitives c =>
    [("b", toField c.b), ("i", toField c.i), ("l", toField c.l), ("s", toField c.s)]
  | .demoInner c => [("value", toField c.value)]
  | .impostor c => [("x", toField c.x)]
  | .everything c => [
      ("a_bool", toField c.aBool), ("a_byte", toField c.aByte), ("a_color", toField c.aColor),
      ("a_double", toField c.aDouble), ("a_float", toField c.aFloat), ("a_inner", toField c.aInner),
      ("a_int", toField c.aInt), ("a_long", toField c.aLong), ("a_ref", toField c.aRef),
      ("a_short", toField c.aShort), ("a_string", toField c.aString),
      ("a_ubyte", toField c.aUbyte), ("a_ushort", toField c.aUshort), ("a_wide", toField c.aWide),
      ("f_bool", toField c.fBool), ("f_byte", toField c.fByte), ("f_color", toField c.fColor),
      ("f_double", toField c.fDouble), ("f_float", toField c.fFloat), ("f_inner", toField c.fInner),
      ("f_int", toField c.fInt), ("f_long", toField c.fLong), ("f_ref", toField c.fRef),
      ("f_short", toField c.fShort), ("f_string", toField c.fString),
      ("f_ubyte", toField c.fUbyte), ("f_ushort", toField c.fUshort), ("f_wide", toField c.fWide)]
  | .calcSum c => [("values", toField c.values)]
  | .calcMean c => [("type", toField c.kind), ("values", toField c.values)]
  | .rpcResult c => [("value", toField c.value)]
  | .rpcError c => [("message", toField c.message)]
  | .echo c | .clientEcho c => [("text", toField c.text)]
  | .unhandled c => [("n", toField c.n)]
  | .ping _ => []
  | .nullHash c => [("x", toField c.x)]

/-- The packet of a type with the given fields. A field left out is blank; one that no packet of
the type has is passed over; one of the wrong kind spoils the packet. -/
def Packet.ofFields? (t : PacketType) (fs : List (String × FieldValue)) : Option Packet :=
  match t with
  | .primitives => do
    return .primitives ⟨← fieldOr false fs "b", ← fieldOr 0 fs "i", ← fieldOr 0 fs "l",
      ← fieldOr "" fs "s"⟩
  | .demoInner => do return .demoInner ⟨← fieldOr 0 fs "value"⟩
  | .impostor => do return .impostor ⟨← fieldOr 0 fs "x"⟩
  | .everything => do
    return .everything {
      aBool := ← fieldOr [] fs "a_bool"
      aByte := ← fieldOr [] fs "a_byte"
      aColor := ← fieldOr [] fs "a_color"
      aDouble := ← fieldOr [] fs "a_double"
      aFloat := ← fieldOr [] fs "a_float"
      aInner := ← fieldOr [] fs "a_inner"
      aInt := ← fieldOr [] fs "a_int"
      aLong := ← fieldOr [] fs "a_long"
      aRef := ← fieldOr [] fs "a_ref"
      aShort := ← fieldOr [] fs "a_short"
      aString := ← fieldOr [] fs "a_string"
      aUbyte := ← fieldOr [] fs "a_ubyte"
      aUshort := ← fieldOr [] fs "a_ushort"
      aWide := ← fieldOr [] fs "a_wide"
      fBool := ← fieldOr false fs "f_bool"
      fByte := ← fieldOr 0 fs "f_byte"
      fColor := ← fieldOr .red fs "f_color"
      fDouble := ← fieldOr ⟨0⟩ fs "f_double"
      fFloat := ← fieldOr ⟨0⟩ fs "f_float"
      fInner := ← fieldOr ⟨0⟩ fs "f_inner"
      fInt := ← fieldOr 0 fs "f_int"
      fLong := ← fieldOr 0 fs "f_long"
      fRef := ← fieldOr none fs "f_ref"
      fShort := ← fieldOr 0 fs "f_short"
      fString := ← fieldOr "" fs "f_string"
      fUbyte := ← fieldOr 0 fs "f_ubyte"
      fUshort := ← fieldOr 0 fs "f_ushort"
      fWide := ← fieldOr ⟨0⟩ fs "f_wide" }
  | .calcSum => do return .calcSum ⟨← fieldOr [] fs "values"⟩
  | .calcMean => do
    return .calcMean ⟨← fieldOr .arithmetic fs "type", ← fieldOr [] fs "values"⟩
  | .rpcResult => do return .rpcResult ⟨← fieldOr ⟨0⟩ fs "value"⟩
  | .rpcError => do return .rpcError ⟨← fieldOr "" fs "message"⟩
  | .echo => do return .echo ⟨← fieldOr "" fs "text"⟩
  | .clientEcho => do return .clientEcho ⟨← fieldOr "" fs "text"⟩
  | .unhandled => do return .unhandled ⟨← fieldOr 0 fs "n"⟩
  | .ping => some (.ping ⟨⟩)
  | .nullHash => do return .nullHash ⟨← fieldOr 0 fs "x"⟩

end PacketRpc
