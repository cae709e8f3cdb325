import PacketRpc.Packet.Fields
import PacketRpc.Packet.Render
import PacketRpc.Proofs.Number.Equality
import PacketRpc.Proofs.Schema.Codec
import PacketRpc.Schema.Catalogue

/-!
# Showing by field types

A schema says how packets are shown: each field by its type alone, in wire order, and a field that
holds nothing not at all (`PacketSchema.shown?`). Renderers only ever add to what is there, and
`Adds r text` says which text; `t.Shows v r` and `t.ShowsField name v r` tie a renderer to what the
field type `t` says of a value, as an element of a sequence and as a field. Each kind of field has
its own lemma (`showsField_number`, `showsField_member`, `showsField_sequence`).
-/

namespace PacketRpc

/-! ## Values that a field leaves out -/

/-- False, zero of either sign, an empty text or sequence, and no packet. -/
def FieldValue.isBlank : FieldValue → Bool
  | .bool v => !v
  | .byte v => v == 0
  | .ubyte v => v == 0
  | .short v => v == 0
  | .ushort v => v == 0
  | .int v => v == 0
  | .long v => v == 0
  | .float v => v.bits == 0 || v.bits == 0x80000000
  | .double v => v.bits == 0 || v.bits == 0x8000000000000000
  | .string v => v == ""
  | .packet v => v.isNone
  | .member _ | .embedded _ => false
  | .array vs => vs.isEmpty

/-! ## Fields by their types -/

/-- A field that holds something is named and shown; one that is blank is not. -/
def fieldText (name : String) (v : FieldValue) (text : String) : String :=
  if v.isBlank then "" else " " ++ name ++ "=" ++ text

/-- Shows fields one by one; none where they are not those that `texts` are for, in that order, or
one of them has a value of another kind. -/
def showFields? :
    List (String × (FieldValue → Option String)) → List (String × FieldValue) → Option String
  | [], [] => some ""
  | (name, text?) :: texts, (name', v) :: fields =>
    if name = name' then do
      let text ← text? v
      let others ← showFields? texts fields
      return fieldText name v text ++ others
    else none
  | _, _ => none

/-- How a member is shown: by its name, and where the enumeration is held as the bare ordinal by
that behind the name of the enumeration. -/
def EnumSchema.text? (e : EnumSchema) (ordinal : UInt16) : Option String :=
  if e = Wide.schema then some (e.name ++ "(" ++ ordinal.toNat.repr ++ ")")
  else e.members[ordinal.toNat]?

namespace FieldType

/-- The name of a type in front of a sequence of its values. -/
def label : FieldType → String
  | enumeration e => e.name
  | embedded name _ => name
  | t => t.primitiveName

/-- What a field puts around its value: an embedded packet has its name and hash there. -/
def framed : FieldType → String → String
  | embedded name fields, text =>
    "\x7b" ++ name ++ " " ++ (PacketSchema.hash ⟨name, fields⟩).toHex ++ text ++ "\x7d"
  | _, text => text

/-- A sequence with its label and length, and a bar in front of each element. -/
def sequenceText (t : FieldType) (texts : List String) : String :=
  "\x7b" ++ t.label ++ " *" ++ texts.length.repr ++ String.join (texts.map ("|" ++ ·)) ++ "\x7d"

mutual

/-- Shows a value as a type says, without what a field puts around it; none for a value of another
kind. -/
def text? : FieldType → FieldValue → Option String
  | bool, .bool v => some (if v then "1" else "0")
  | byte, .byte v => some v.toInt.repr
  | ubyte, .ubyte v => some v.toNat.repr
  | short, .short v => some v.toInt.repr
  | ushort, .ushort v => some v.toNat.repr
  | int, .int v => some v.toInt.repr
  | long, .long v => some v.toInt.repr
  | float, .float v => some v.text
  | double, .double v => some v.text
  | string, .string v => some ("\"" ++ v ++ "\"")
  | packet, .packet v => some ((v.map Packet.display).getD "")
  | enumeration e, .member ordinal => e.text? ordinal
  | embedded _ fields, .embedded values => showFields? (inWireOrder (texts fields)) values
  | array t, .array vs => (vs.mapM (text? t)).map t.sequenceText
  | _, _ => none

/-- The fields with the texts of their types. -/
def texts : List (String × FieldType) → List (String × (FieldValue → Option String))
  | [] => []
  | (name, t) :: fields => (name, fun v => (text? t v).map t.framed) :: texts fields

end

/-- Shows the value of a field as a type says, with what the field puts around it. -/
def shown? (t : FieldType) (v : FieldValue) : Option String := (t.text? v).map t.framed

theorem texts_eq_map (fields : List (String × FieldType)) :
    texts fields = fields.map fun f => (f.1, f.2.shown?) := by
  induction fields with
  | nil => rw [texts, List.map_nil]
  | cons f fields ih =>
    rw [texts, ih, List.map_cons]
    rfl

end FieldType

/-- Shows the fields of a packet, which must stand in wire order, each as its type says. -/
def PacketSchema.shown? (s : PacketSchema) (fields : List (String × FieldValue)) : Option String :=
  showFields? (s.wireFields.map fun f => (f.1, f.2.shown?)) fields

/-- An embedded packet is shown as the bare fields of its own schema. -/
theorem FieldType.text?_embed (s : PacketSchema) (values : List (String × FieldValue)) :
    s.embed.text? (.embedded values) = s.shown? values := by
  rw [PacketSchema.embed, text?, texts_eq_map, inWireOrder_map]
  rfl

/-! ## Renderers -/

namespace Render

variable {α : Type} {a b : Render} {s t : String}

/-- What is there stays, and the text comes behind it. -/
def Adds (r : Render) (text : String) : Prop := ∀ out, r out = out ++ text

theorem adds_nothing : Adds nothing "" := fun _ => String.append_empty.symm

theorem adds_put (s : String) : Adds (put s) s := fun _ => rfl

theorem Adds.append (ha : Adds a s) (hb : Adds b t) : Adds (a ++ b) (s ++ t) := by
  intro out
  show b (a out) = _
  rw [ha, hb, String.append_assoc]

theorem Adds.text_eq (h : Adds a s) : a.text = s := by
  rw [text, h, String.empty_append]

theorem Adds.field (h : Adds a s) (name : String) :
    Adds (Render.field name a) (" " ++ name ++ "=" ++ s) := (adds_put _).append h

/-- Each element is added behind a bar. -/
theorem adds_elements {f : α → Render} {text : α → String} {as : List α}
    (h : ∀ a ∈ as, Adds (f a) (text a)) :
    Adds (all (as.map fun a => put "|" ++ f a)) (String.join ((as.map text).map ("|" ++ ·))) := by
  induction as with
  | nil => exact adds_nothing
  | cons a as ih =>
    rw [List.map_cons, List.map_cons, List.map_cons, String.join_cons]
    exact ((adds_put "|").append (h a List.mem_cons_self)).append
      (ih fun b hb => h b (List.mem_cons_of_mem a hb))

end Render

open Render (Adds)

/-! ## Renderers show what types say -/

variable {α : Type} {t : FieldType} {name label : String} {v : FieldValue} {r : Render}

/-- The renderer adds what the type says of a value. -/
def FieldType.Shows (t : FieldType) (v : FieldValue) (r : Render) : Prop :=
  ∃ text, t.text? v = some text ∧ Adds r text

/-- The renderer adds what the type says of the value of a field. -/
def FieldType.ShowsField (t : FieldType) (name : String) (v : FieldValue) (r : Render) : Prop :=
  ∃ text, t.shown? v = some text ∧ Adds r (fieldText name v text)

/-- The renderer adds what is said of fields. -/
def ShowsFields (texts : List (String × (FieldValue → Option String)))
    (fields : List (String × FieldValue)) (r : Render) : Prop :=
  ∃ text, showFields? texts fields = some text ∧ Adds r text

section
open Render (all)

variable {texts : List (String × (FieldValue → Option String))}
  {fields : List (String × FieldValue)} {rs : List Render}

theorem showsFields_nil : ShowsFields [] [] (all []) := ⟨"", rfl, Render.adds_nothing⟩

theorem FieldType.ShowsField.cons (h : t.ShowsField name v r)
    (k : ShowsFields texts fields (all rs)) :
    ShowsFields ((name, t.shown?) :: texts) ((name, v) :: fields) (all (r :: rs)) := by
  obtain ⟨text, ht, ha⟩ := h
  obtain ⟨others, ho, hb⟩ := k
  exact ⟨fieldText name v text ++ others, by simp [showFields?, ht, ho], ha.append hb⟩

theorem FieldType.ShowsField.last (h : t.ShowsField name v r) :
    ShowsFields [(name, t.shown?)] [(name, v)] r := by
  obtain ⟨text, ht, ha⟩ := h
  exact ⟨fieldText name v text, by simp [showFields?, ht], ha⟩

end

theorem FieldType.Shows.field (h : t.Shows v r) (hf : ∀ text, t.framed text = text)
    (hv : v.isBlank = false) (name : String) : t.ShowsField name v (Render.field name r) := by
  obtain ⟨text, ht, ha⟩ := h
  refine ⟨text, by rw [shown?, ht, Option.map_some, hf], ?_⟩
  rw [fieldText, hv, if_neg Bool.false_ne_true]
  exact ha.field name

theorem FieldType.Shows.blank (h : t.Shows v r) (hv : v.isBlank = true) (name : String) :
    t.ShowsField name v Render.nothing := by
  obtain ⟨text, ht, -⟩ := h
  refine ⟨t.framed text, by rw [shown?, ht, Option.map_some], ?_⟩
  rw [fieldText, if_pos hv]
  exact Render.adds_nothing

/-- A renderer that leaves out just what is blank. -/
theorem FieldType.Shows.optional {blank : Bool} (h : t.Shows v r)
    (hf : ∀ text, t.framed text = text) (hb : v.isBlank = blank) (name : String) :
    t.ShowsField name v (if blank then Render.nothing else Render.field name r) := by
  cases blank with
  | true => exact h.blank hb name
  | false => exact h.field hf hb name

/-! ### Sequences -/

theorem FieldType.Shows.text?_eq (h : t.Shows v r) : t.text? v = some r.text ∧ Adds r r.text := by
  obtain ⟨text, ht, ha⟩ := h
  rw [ha.text_eq]
  exact ⟨ht, ha⟩

/-- Of a sequence that is not empty, each element is shown behind a bar. -/
theorem showsField_sequence [Fieldlike α] {f : α → Render} {as : List α}
    (h : ∀ a ∈ as, t.Shows (toField a) (f a)) (hl : t.label = label) (name : String) :
    (FieldType.array t).ShowsField name (toField as) (Render.sequence name label f as) := by
  -- the text of an element is the one that its renderer adds
  refine FieldType.Shows.optional ⟨t.sequenceText (as.map fun a => (f a).text), ?_, ?_⟩
    (fun _ => rfl) ?_ name
  · show ((as.map toField).mapM t.text?).map t.sequenceText = _
    rw [mapM_map_eq_some fun a ha => (h a ha).text?_eq.1, Option.map_some]
  · rw [FieldType.sequenceText, List.length_map, hl]
    exact ((Render.adds_put _).append (Render.adds_elements fun a ha => (h a ha).text?_eq.2)).append
      (Render.adds_put _)
  · exact List.isEmpty_map

/-! ### Scalars -/

/-- The field type says how numbers of type `α` are shown, and a field that is zero is blank. -/
class NumberField (t : FieldType) (α : Type) [Shown α] [Fieldlike α] : Prop where
  text? : ∀ a : α, t.text? (toField a) = some (Shown.text a)
  isBlank : ∀ a : α, (toField a).isBlank = Shown.isZero a
  framed : ∀ text, t.framed text = text

instance : NumberField .byte Int8 := ⟨fun _ => rfl, fun _ => rfl, fun _ => rfl⟩
instance : NumberField .ubyte UInt8 := ⟨fun _ => rfl, fun _ => rfl, fun _ => rfl⟩
instance : NumberField .short Int16 := ⟨fun _ => rfl, fun _ => rfl, fun _ => rfl⟩
instance : NumberField .ushort UInt16 := ⟨fun _ => rfl, fun _ => rfl, fun _ => rfl⟩
instance : NumberField .int Int32 := ⟨fun _ => rfl, fun _ => rfl, fun _ => rfl⟩
instance : NumberField .long Int64 := ⟨fun _ => rfl, fun _ => rfl, fun _ => rfl⟩

instance : NumberField .float Binary32 := ⟨fun _ => rfl, fun v => v.isZero_eq.symm, fun _ => rfl⟩
instance : NumberField .double Binary64 := ⟨fun _ => rfl, fun v => v.isZero_eq.symm, fun _ => rfl⟩

section
variable [Shown α] [Fieldlike α] [h : NumberField t α]
include h

theorem showsField_number (a : α) (name : String) :
    t.ShowsField name (toField a) (Render.number name a) :=
  FieldType.Shows.optional ⟨_, h.text? a, Render.adds_put _⟩ h.framed (h.isBlank a) name

theorem showsField_numbers (as : List α) (hl : t.label = label) (name : String) :
    (FieldType.array t).ShowsField name (toField as) (Render.numbers name label as) :=
  showsField_sequence (fun a _ => ⟨_, h.text? a, Render.adds_put _⟩) hl name

end

theorem showsField_bool (b : Bool) (name : String) :
    FieldType.bool.ShowsField name (toField b) (Render.bool name b) := by
  have h : FieldType.bool.Shows (toField b) (Render.put (if b then "1" else "0")) :=
    ⟨_, rfl, Render.adds_put _⟩
  cases b with
  | true => exact h.field (fun _ => rfl) rfl name
  | false => exact h.blank rfl name

theorem showsField_bools (bs : List Bool) (name : String) :
    (FieldType.array .bool).ShowsField name (toField bs) (Render.bools name bs) :=
  showsField_sequence (fun _ _ => ⟨_, rfl, Render.adds_put _⟩) rfl name

theorem showsField_string (s name : String) :
    FieldType.string.ShowsField name (toField s) (Render.string name s) := by
  refine FieldType.Shows.optional ⟨_, rfl, Render.adds_put _⟩ (fun _ => rfl) ?_ name
  rw [Bool.eq_iff_iff, String.isEmpty_iff]
  exact beq_iff_eq

theorem showsField_strings (ss : List String) (name : String) :
    (FieldType.array .string).ShowsField name (toField ss) (Render.strings name ss) :=
  showsField_sequence (fun _ _ => ⟨_, rfl, Render.adds_put _⟩) rfl name

/-! ### Enumerations -/

/-- The schema says how the members of an enumeration are shown. -/
class MemberField (e : EnumSchema) (α : Type) [Enumerated α] [Fieldlike α] : Prop where
  text? : ∀ a : α, (FieldType.enumeration e).text? (toField a) = some (Enumerated.label a)
  isBlank : ∀ a : α, (toField a).isBlank = false

/-- Only the enumeration that is held as the bare ordinal is not shown by its members. -/
theorem EnumSchema.text?_of_name {e : EnumSchema} (h : e.name ≠ Wide.schema.name)
    (ordinal : UInt16) : e.text? ordinal = e.members[ordinal.toNat]? :=
  if_neg fun he => h (congrArg EnumSchema.name he)

instance : MemberField DemoColor.schema DemoColor where
  text? a := (EnumSchema.text?_of_name (by decide) _).trans (by cases a <;> rfl)
  isBlank _ := rfl

instance : MemberField MeanKind.schema MeanKind where
  text? k := (EnumSchema.text?_of_name (by decide) _).trans (by cases k <;> rfl)
  isBlank _ := rfl

instance : MemberField Wide.schema Wide where
  text? a := by
    show Wide.schema.text? a.value = _
    rw [EnumSchema.text?, if_pos rfl]
    rfl
  isBlank _ := rfl

section
variable {e : EnumSchema} [Enumerated α] [Fieldlike α] [h : MemberField e α]
include h

theorem showsField_member (a : α) (name : String) :
    (FieldType.enumeration e).ShowsField name (toField a) (Render.member name a) :=
  FieldType.Shows.field ⟨_, h.text? a, Render.adds_put _⟩ (fun _ => rfl) (h.isBlank a) name

theorem showsField_members (as : List α) (hl : e.name = label) (name : String) :
    (FieldType.array (.enumeration e)).ShowsField name (toField as)
      (Render.members name label as) :=
  showsField_sequence (fun a _ => ⟨_, h.text? a, Render.adds_put _⟩) hl name

end

end PacketRpc
