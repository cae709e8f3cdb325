import PacketRpc.Render
import PacketRpc.Packet.Basic

/-!
# Rendering packets

A packet is shown as its name, its hash and its fields in the order of their names, in braces.
Referenced and embedded packets are shown in the same way; embedded packets in a sequence show
their fields only.
-/

namespace PacketRpc

/-- Shows a packet with the given name, hash and fields. -/
def Render.braced (name : String) (hash : PacketHash) (fields : Render) : Render :=
  Render.put ("\x7b" ++ name ++ " " ++ hash.toHex) ++ fields ++ Render.put "\x7d"

/-- The fields of an inner packet. -/
def DemoInner.renderFields (c : DemoInner) : Render := Render.number "value" c.value

mutual

/-- Shows the fields of a packet. -/
def Packet.renderFields : Packet → Render
  | .primitives c => Render.all [
      Render.bool "b" c.b,
      Render.number "i" c.i,
      Render.number "l" c.l,
      Render.string "s" c.s]
  | .demoInner c => c.renderFields
  | .impostor c => Render.number "x" c.x
  | .everything c => Render.all [
      Render.bools "a_bool" c.aBool,
      Render.numbers "a_byte" "byte" c.aByte,
      Render.members "a_color" "DemoColor" c.aColor,
      Render.numbers "a_double" "double" c.aDouble,
      Render.numbers "a_float" "float" c.aFloat,
      Render.sequence "a_inner" "DemoInner" DemoInner.renderFields c.aInner,
      Render.numbers "a_int" "int" c.aInt,
      Render.numbers "a_long" "long" c.aLong,
      Render.sequence "a_ref" "packet" id (Packet.renderReferences c.aRef),
      Render.numbers "a_short" "short" c.aShort,
      Render.strings "a_string" c.aString,
      Render.numbers "a_ubyte" "ubyte" c.aUbyte,
      Render.numbers "a_ushort" "ushort" c.aUshort,
      Render.members "a_wide" "Wide" c.aWide,
      Render.bool "f_bool" c.fBool,
      Render.number "f_byte" c.fByte,
      Render.member "f_color" c.fColor,
      Render.number "f_double" c.fDouble,
      Render.number "f_float" c.fFloat,
      Render.field "f_inner"
        (Render.braced PacketType.demoInner.name PacketType.demoInner.hash c.fInner.renderFields),
      Render.number "f_int" c.fInt,
      Render.number "f_long" c.fLong,
      match c.fRef with
      | none => Render.nothing
      | some _ => Render.field "f_ref" (Packet.renderReference c.fRef),
      Render.number "f_short" c.fShort,
      Render.string "f_string" c.fString,
      Render.number "f_ubyte" c.fUbyte,
      Render.number "f_ushort" c.fUshort,
      Render.member "f_wide" c.fWide]
  | .calcSum c => Render.numbers "values" "float" c.values
  | .calcMean c => Render.all [
      Render.member "type" c.kind,
      Render.numbers "values" "float" c.values]
  | .rpcResult c => Render.number "value" c.value
  | .rpcError c => Render.string "message" c.message
  | .echo c | .clientEcho c => Render.string "text" c.text
  | .unhandled c => Render.number "n" c.n
  | .ping _ => Render.nothing
  | .nullHash c => Render.number "x" c.x

/-- Shows a packet that is referred to, and nothing for none. -/
def Packet.renderReference : Option Packet → Render
  | none => Render.nothing
  | some p => Render.braced p.name p.hash p.renderFields

/-- How each reference is shown. -/
def Packet.renderReferences : List (Option Packet) → List Render
  | [] => []
  | r :: rs => Packet.renderReference r :: Packet.renderReferences rs

end

namespace Packet

/-- Shows a packet. -/
def render (p : Packet) : Render := renderReference (some p)

/-- The text of a packet. -/
def display (p : Packet) : String := p.render.text

/-- A field that embeds a packet. -/
def renderField (name : String) (p : Packet) : Render := Render.field name p.render

/-- A field that refers to a packet or to none. -/
def renderReferenceField (name : String) (r : Option Packet) : Render :=
  match r with
  | none => Render.nothing
  | some p => renderField name p

/-- A field that embeds a sequence of packets, showing their fields only. -/
def renderBodies (name label : String) (ps : List Packet) : Render :=
  Render.sequence name label renderFields ps

/-- A field that refers to a sequence of packets. -/
def renderReferenceSequence (name : String) (rs : List (Option Packet)) : Render :=
  Render.sequence name "packet" id (renderReferences rs)

end Packet
end PacketRpc
