import PacketRpc.Proofs.Packet.Description
import PacketRpc.Proofs.Packet.RoundTrip
import PacketRpc.Proofs.Schema.Display

/-!
# Packets are shown as their schemas say

The schema of a packet, which says how its fields are written and read, also says how they are
shown: each renderer of a field adds what the field type says of the value, if the packets that are
referred to add what they are shown as (`Packet.shows_fields`), and so by induction they all do
(`Packet.adds_display`). A packet is shown as its name and hash and what its schema makes of its
fields (`Packet.display_of_schema`).
-/

namespace PacketRpc

open Render (Adds all)

/-! ## Embedded packets -/

/-- The shape of inner packets has the hash that they carry. -/
theorem DemoInner.hash_schema : DemoInner.schema.hash = PacketType.demoInner.hash := by
  have hf : inWireOrder (FieldType.sortedEach DemoInner.schema.fields) = [("value", .int)] :=
    List.mergeSort_singleton _
  have hv : DemoInner.schema.version = "DemoInner+value:int" := by
    rw [PacketSchema.version, hf]
    decide
  rw [PacketSchema.hash, hv]
  decide +kernel

theorem shows_inner (c : DemoInner) :
    DemoInner.schema.embed.Shows (toField c) c.renderFields := by
  have hf : DemoInner.schema.wireFields = [("value", .int)] := PacketSchema.wireFields_singleton
  have h := (showsField_number (t := .int) c.value "value").last
  show ∃ text, DemoInner.schema.embed.text? (.embedded [("value", .int c.value)]) = _ ∧ _
  rw [FieldType.text?_embed, PacketSchema.shown?, hf]
  exact h

/-- An embedded packet is shown with its name and hash, even if its fields are blank. -/
theorem showsField_inner (c : DemoInner) (name : String) :
    DemoInner.schema.embed.ShowsField name (toField c) (Render.field name
      (Render.braced PacketType.demoInner.name PacketType.demoInner.hash c.renderFields)) := by
  obtain ⟨text, ht, ha⟩ := shows_inner c
  refine ⟨DemoInner.schema.embed.framed text, by rw [FieldType.shown?, ht, Option.map_some], ?_⟩
  rw [← DemoInner.hash_schema]
  exact (((Render.adds_put _).append ha).append (Render.adds_put _)).field name

namespace Packet

/-! ## References -/

/-- A packet whose fields are shown is shown. -/
theorem adds_render {p : Packet} {text : String} (h : Adds p.renderFields text) :
    Adds p.render ("\x7b" ++ p.name ++ " " ++ p.hash.toHex ++ text ++ "\x7d") := by
  rw [render, renderReference]
  exact ((Render.adds_put _).append h).append (Render.adds_put _)

theorem shows_reference {o : Option Packet} (h : ∀ p ∈ o, Adds p.render p.display) :
    FieldType.packet.Shows (toField o) (renderReference o) := by
  cases o with
  | none => exact ⟨"", rfl, by rw [renderReference]; exact Render.adds_nothing⟩
  | some p => exact ⟨p.display, rfl, h p rfl⟩

theorem showsField_reference {o : Option Packet} (h : ∀ p ∈ o, Adds p.render p.display)
    {name : String} {r : Render} (hr : r = renderReferenceField name o) :
    FieldType.packet.ShowsField name (toField o) r := by
  subst hr
  cases o with
  | none => exact (shows_reference h).blank rfl name
  | some p => exact (shows_reference h).field (fun _ => rfl) rfl name

theorem renderReferences_eq (rs : List (Option Packet)) :
    renderReferences rs = rs.map renderReference := by
  induction rs with
  | nil => rw [renderReferences, List.map_nil]
  | cons r rs ih => rw [renderReferences, ih, List.map_cons]

theorem showsField_references {rs : List (Option Packet)}
    (h : ∀ o ∈ rs, ∀ p ∈ o, Adds p.render p.display) (name : String) :
    (FieldType.array .packet).ShowsField name (toField rs)
      (Render.sequence name "packet" id (renderReferences rs)) := by
  have hs := showsField_sequence (t := .packet) (fun o ho => shows_reference (h o ho)) rfl name
  simp only [Render.sequence, renderReferences_eq, List.isEmpty_map, List.length_map,
    List.map_map] at hs ⊢
  exact hs

/-! ## Packets -/

theorem shows_everything {c : Everything Packet}
    (h : ∀ q ∈ (everything c).references, Adds q.render q.display) :
    ShowsFields (Everything.schema.wireFields.map fun f => (f.1, f.2.shown?))
      (everything c).fields (everything c).renderFields := by
  rw [Everything.wireFields_eq, renderFields]
  -- all sequences stand before all single fields, which are declared before them
  exact (showsField_bools _ _).cons <|
    (showsField_numbers _ rfl _).cons <|
    (showsField_members _ rfl _).cons <|
    (showsField_numbers _ rfl _).cons <|
    (showsField_numbers _ rfl _).cons <|
    (showsField_sequence (fun a _ => shows_inner a) rfl _).cons <|
    (showsField_numbers _ rfl _).cons <|
    (showsField_numbers _ rfl _).cons <|
    (showsField_references (fun o ho p hp => h p (mem_references.2 (.inl (hp ▸ ho)))) _).cons <|
    (showsField_numbers _ rfl _).cons <|
    (showsField_strings _ _).cons <|
    (showsField_numbers _ rfl _).cons <|
    (showsField_numbers _ rfl _).cons <|
    (showsField_members _ rfl _).cons <|
    (showsField_bool _ _).cons <|
    (showsField_number _ _).cons <|
    (showsField_member _ _).cons <|
    (showsField_number _ _).cons <|
    (showsField_number _ _).cons <|
    (showsField_inner _ _).cons <|
    (showsField_number _ _).cons <|
    (showsField_number _ _).cons <|
    (showsField_reference (fun p hp => h p (mem_references.2 (.inr hp)))
      (by cases c.fRef <;> rfl)).cons <|
    (showsField_number _ _).cons <|
    (showsField_string _ _).cons <|
    (showsField_number _ _).cons <|
    (showsField_number _ _).cons <|
    (showsField_member _ _).cons showsFields_nil

theorem shows_single {name field : String} {t : FieldType} {v : FieldValue} {r : Render}
    (h : t.ShowsField field v r) :
    ShowsFields ((⟨name, [(field, t)]⟩ : PacketSchema).wireFields.map fun f => (f.1, f.2.shown?))
      [(field, v)] r := by
  rw [PacketSchema.wireFields_singleton]
  exact h.last

/-- The fields of a packet are shown as its schema says, if the packets that it refers to add what
they are shown as. -/
theorem shows_fields {p : Packet} (h : ∀ q ∈ p.references, Adds q.render q.display) :
    ShowsFields (p.type.schema.wireFields.map fun f => (f.1, f.2.shown?)) p.fields
      p.renderFields := by
  cases p with
  | everything c => exact shows_everything h
  | primitives c =>
    rw [type, Primitives.wireFields_eq, renderFields]
    exact (showsField_bool _ _).cons <| (showsField_number _ _).cons <|
      (showsField_number _ _).cons <| (showsField_string _ _).cons showsFields_nil
  | calcMean c =>
    rw [type, CalcMean.wireFields_eq, renderFields]
    exact (showsField_member _ _).cons <| (showsField_numbers _ rfl _).cons showsFields_nil
  | ping c =>
    rw [type, Ping.wireFields_eq, renderFields]
    exact showsFields_nil
  | calcSum c =>
    rw [renderFields]
    exact shows_single (showsField_numbers _ rfl _)
  | rpcError c | echo c | clientEcho c =>
    rw [renderFields]
    exact shows_single (showsField_string _ _)
  | demoInner c | impostor c | rpcResult c | unhandled c | nullHash c =>
    rw [renderFields]
    exact shows_single (showsField_number _ _)

/-- Whatever packets it refers to, a packet adds what it is shown as. -/
theorem adds_display (p : Packet) : Adds p.render p.display := by
  induction p using induct_references with
  | h p ih =>
    -- its own text is what it adds to nothing
    obtain ⟨text, -, ha⟩ := shows_fields ih
    have h := adds_render ha
    rwa [← h.text_eq] at h

/-- **Packets are shown as their schemas say.** Every packet is shown with its name and hash and, in
wire order, what the types of its fields say of their values. To show it, or only its fields, leaves
what is there as it is and adds this behind it. -/
theorem display_of_schema (p : Packet) :
    ∃ text, p.type.schema.shown? p.fields = some text ∧
      p.display = "\x7b" ++ p.type.schema.name ++ " " ++ p.hash.toHex ++ text ++ "\x7d" ∧
      (∀ out, p.renderFields out = out ++ text) ∧ ∀ out, p.render out = out ++ p.display := by
  have hn : p.type.schema.name = p.name := by cases p <;> rfl
  obtain ⟨text, ht, ha⟩ := shows_fields fun q _ => adds_display q
  refine ⟨text, ht, ?_, ha, adds_display p⟩
  rw [hn]
  exact (adds_render ha).text_eq

/-- What a field leaves out is shown in a sequence. An enumeration and an embedded packet are shown
even where they are blank. -/
example :
    let c : Everything Packet :=
      { aBool := [false], aDouble := [⟨0x8000000000000000⟩], aInner := [⟨4⟩, ⟨0⟩], aRef := [none],
        aString := [""], fDouble := ⟨0x8000000000000000⟩ }
    (everything c).display = "\x7bEverything AFFAE969DE66C183"
      ++ " a_bool=\x7bbool *1|0\x7d a_double=\x7bdouble *1|-0\x7d"
      ++ " a_inner=\x7bDemoInner *2| value=4|\x7d a_ref=\x7bpacket *1|\x7d"
      ++ " a_string=\x7bstring *1|\"\"\x7d f_color=Red"
      ++ " f_inner=\x7bDemoInner 4AD7D252496F50D6\x7d f_wide=Wide(0)\x7d" := by
  decide +kernel

end Packet
end PacketRpc
