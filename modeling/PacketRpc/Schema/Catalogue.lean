import PacketRpc.Schema.Version
import PacketRpc.Packet.Basic

/-!
# Schemas of the known packets

The shape of each packet type, with its fields as they are declared.
-/

namespace PacketRpc

/-- The colours. -/
def DemoColor.schema : EnumSchema := ⟨"DemoColor", ["Red", "Green", "Blue"]⟩

/-- The kinds of mean. -/
def MeanKind.schema : EnumSchema := ⟨"Type", ["Arithmetic", "Geometric", "Harmonic"]⟩

/-- The enumeration of three hundred members. -/
def Wide.schema : EnumSchema := ⟨"Wide", (List.range 300).map fun i => "w" ++ i.repr⟩

/-- The shape of an inner packet. -/
def DemoInner.schema : PacketSchema := ⟨"DemoInner", [("value", .int)]⟩

/-- The shape of the packet with a field of every kind. -/
def Everything.schema : PacketSchema where
  name := "Everything"
  fields := [
    ("f_bool", .bool),
    ("f_byte", .byte),
    ("f_color", .enumeration DemoColor.schema),
    ("f_double", .double),
    ("f_float", .float),
    ("f_inner", DemoInner.schema.embed),
    ("f_int", .int),
    ("f_long", .long),
    ("f_ref", .packet),
    ("f_short", .short),
    ("f_string", .string),
    ("f_ubyte", .ubyte),
    ("f_ushort", .ushort),
    ("f_wide", .enumeration Wide.schema),
    ("a_bool", .array .bool),
    ("a_byte", .array .byte),
    ("a_color", .array (.enumeration DemoColor.schema)),
    ("a_double", .array .double),
    ("a_float", .array .float),
    ("a_inner", .array DemoInner.schema.embed),
    ("a_int", .array .int),
    ("a_long", .array .long),
    ("a_ref", .array .packet),
    ("a_short", .array .short),
    ("a_string", .array .string),
    ("a_ubyte", .array .ubyte),
    ("a_ushort", .array .ushort),
    ("a_wide", .array (.enumeration Wide.schema))]

/-- The shape of each packet type. -/
def PacketType.schema : PacketType → PacketSchema
  | primitives => ⟨"Primitives", [("s", .string), ("l", .long), ("i", .int), ("b", .bool)]⟩
  | demoInner => DemoInner.schema
  | impostor => ⟨"Impostor", [("x", .long)]⟩
  | everything => Everything.schema
  | calcSum => ⟨"CalcSum", [("values", .array .float)]⟩
  | calcMean => ⟨"CalcMean", [("type", .enumeration MeanKind.schema), ("values", .array .float)]⟩
  | rpcResult => ⟨"RpcResult", [("value", .float)]⟩
  | rpcError => ⟨"RpcError", [("message", .string)]⟩
  | echo | clientEcho => ⟨"Echo", [("text", .string)]⟩
  | unhandled => ⟨"Unhandled", [("n", .int)]⟩
  | ping => ⟨"Ping", []⟩
  | nullHash => ⟨"NullHash", [("x", .int)]⟩

end PacketRpc
