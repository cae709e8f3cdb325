import PacketRpc.Packet.Fields
import PacketRpc.Packet.Read
import PacketRpc.Proofs.Codec.Ordinals
import PacketRpc.Proofs.Schema.Order
import PacketRpc.Schema.Catalogue

/-!
# Writing and reading by field types

A schema says how packets are written and read, without regard to what else is known of their type:
each field by its type alone, down to the words and bytes that it takes, in wire order
(`PacketSchema.write?`, `PacketSchema.read`).
`Describes t f x` ties the codec to it: `f` and `x` write and read values as the field type `t`
says. It is kept by sequences (`Describes.array`), and each kind of field has its own
(`describes_byte`, `describes_member`, `describes_reference`).
-/

namespace PacketRpc

/-! ## Fields by their types -/

/-- How many bytes an ordinal takes. -/
def EnumSchema.width (e : EnumSchema) : Nat := if e.isLarge then 2 else 1

/-- Writes fields one by one; none where they are not those that the writers are for, in that order,
or one of them has a value of another kind. -/
def writeFields? :
    List (String × (FieldValue → Option Write)) → List (String × FieldValue) → Option Write
  | [], [] => some (pure ())
  | (name, write?) :: writers, (name', v) :: fields =>
    if name = name' then do
      let first ← write? v
      let others ← writeFields? writers fields
      return first >>= fun _ => others
    else none
  | _, _ => none

/-- Reads fields one by one, under the names that the readers are for. -/
def readFields : List (String × Read FieldValue) → Read (List (String × FieldValue))
  | [] => pure []
  | (name, read) :: readers => do
    let v ← read
    let fields ← readFields readers
    return (name, v) :: fields

namespace FieldType

mutual

/-- Writes a value as a type says; none for a value of another kind. -/
def write? : FieldType → FieldValue → Option Write
  | bool, .bool v => some (Write.word 1 v.toNat)
  | byte, .byte v => some (Write.word 1 v.toUInt8.toNat)
  | ubyte, .ubyte v => some (Write.word 1 v.toNat)
  | short, .short v => some (Write.word 2 v.toUInt16.toNat)
  | ushort, .ushort v => some (Write.word 2 v.toNat)
  | int, .int v => some (Write.word 4 v.toUInt32.toNat)
  | long, .long v => some (Write.word 8 v.toUInt64.toNat)
  | float, .float v => some (Write.word 4 v.bits.toNat)
  | double, .double v => some (Write.word 8 v.bits.toNat)
  | string, .string v => some do
    Write.length v.utf8ByteSize
    Write.bytes v.toUTF8.data.toList
  | packet, .packet none => some (Write.word 8 0)
  | packet, .packet (some p) => some do
    Write.word 8 p.hash.value.toUInt64.toNat
    p.writeBody
  | enumeration e, .member ordinal => some (Write.word e.width ordinal.toNat)
  | embedded _ fields, .embedded values => writeFields? (inWireOrder (writers fields)) values
  | array bool, .array vs => (ofField? (.array vs)).map fun (flags : List Bool) => do
    Write.length flags.length
    Write.bytes (Flags.pack flags)
  | array t, .array vs => (vs.mapM (write? t)).map fun writes => do
    Write.length writes.length
    Step.forEach id writes
  | _, _ => none

/-- The fields with the writers of their types. -/
def writers : List (String × FieldType) → List (String × (FieldValue → Option Write))
  | [] => []
  | (name, t) :: fields => (name, write? t) :: writers fields

end

variable (reference : Read (Option Packet))

mutual

/-- Reads a value as a type says, with `reference` for packets that are referred to. -/
def read : FieldType → Read FieldValue
  | bool => do return .bool ((← Read.word 1) != 0)
  | byte => do return .byte (UInt8.ofNat (← Read.word 1)).toInt8
  | ubyte => do return .ubyte (UInt8.ofNat (← Read.word 1))
  | short => do return .short (UInt16.ofNat (← Read.word 2)).toInt16
  | ushort => do return .ushort (UInt16.ofNat (← Read.word 2))
  | int => do return .int (UInt32.ofNat (← Read.word 4)).toInt32
  | long => do return .long (UInt64.ofNat (← Read.word 8)).toInt64
  | float => do return .float ⟨UInt32.ofNat (← Read.word 4)⟩
  | double => do return .double ⟨UInt64.ofNat (← Read.word 8)⟩
  | string => do
    let bs ← Read.bytes (← Read.length)
    match String.fromUTF8? bs.toByteArray with
    | some text => return .string text
    | none => Step.fail .invalidText
  | packet => do return .packet (← reference)
  | enumeration e => do
    let ordinal := UInt16.ofNat (← Read.word e.width)
    if ordinal.toNat < e.members.length then
      return .member ordinal
    else
      Step.fail (.badEnum e.name ordinal e.members.length)
  | embedded _ fields => do return .embedded (← readFields (inWireOrder (readers fields)))
  | array bool => do
    let n ← Read.length
    let bs ← Read.bytes (Flags.byteCount n)
    return .array ((Flags.unpack n bs).map .bool)
  | array t => do
    let n ← Read.length
    return .array (← Step.repeated n (read t))

/-- The fields with the readers of their types. -/
def readers : List (String × FieldType) → List (String × Read FieldValue)
  | [] => []
  | (name, t) :: fields => (name, read t) :: readers fields

end
end FieldType

namespace PacketSchema

/-- Writes the fields of a packet, which must stand in wire order, each as its type says. -/
def write? (s : PacketSchema) (fields : List (String × FieldValue)) : Option Write :=
  writeFields? (s.wireFields.map fun f => (f.1, f.2.write?)) fields

/-- Reads the fields of a packet in wire order, each as its type says. -/
def read (s : PacketSchema) (reference : Read (Option Packet)) :
    Read (List (String × FieldValue)) :=
  readFields (s.wireFields.map fun f => (f.1, f.2.read reference))

end PacketSchema

/-! ## Kinds of fields -/

namespace FieldType

variable {reference : Read (Option Packet)}

theorem writers_eq_map (fields : List (String × FieldType)) :
    writers fields = fields.map fun f => (f.1, f.2.write?) := by
  induction fields with
  | nil => rw [writers, List.map_nil]
  | cons f fields ih => rw [writers, ih, List.map_cons]

theorem readers_eq_map (fields : List (String × FieldType)) :
    readers reference fields = fields.map fun f => (f.1, f.2.read reference) := by
  induction fields with
  | nil => rw [readers, List.map_nil]
  | cons f fields ih => rw [readers, ih, List.map_cons]

/-! ### Leaves

A field type spells out what texts, flags and references are; the codec has a step for each.
-/

theorem write?_packet (p : Option Packet) :
    write? packet (.packet p) = some (Packet.writeReference p) := by
  rw [Packet.writeReference.eq_def]
  cases p <;> rfl

theorem read_string :
    read reference string = Read.text >>= fun v => pure (FieldValue.string v) := by
  rw [read, Read.text]
  simp only [Step.bind_assoc]
  congr 1
  funext n
  congr 1
  funext bs
  cases String.fromUTF8? bs.toByteArray <;> rfl

theorem read_flags :
    read reference (array bool) = Read.flags >>= fun vs => pure (.array (vs.map .bool)) := by
  rw [Read.flags]
  simp only [Step.bind_assoc]
  rfl

section
variable {t : FieldType} (ht : t ≠ bool)
include ht

theorem write?_array (vs : List FieldValue) :
    write? (array t) (.array vs) = (vs.mapM (write? t)).map (Write.sequence id) := by
  cases t
  case bool => exact absurd rfl ht
  all_goals rfl

theorem read_array : read reference (array t) =
    Read.sequence (read reference t) >>= fun vs => pure (.array vs) := by
  rw [Read.sequence, Step.bind_assoc]
  cases t
  case bool => exact absurd rfl ht
  all_goals rfl

end

/-! ### Embedded packets -/

/-- An embedded packet is written as the bare fields of its own schema. -/
theorem write?_embed (s : PacketSchema) (values : List (String × FieldValue)) :
    s.embed.write? (.embedded values) = s.write? values := by
  rw [PacketSchema.embed, write?, writers_eq_map, inWireOrder_map]
  rfl

theorem read_embed (s : PacketSchema) :
    s.embed.read reference = s.read reference >>= fun fields => pure (.embedded fields) := by
  rw [PacketSchema.embed, read, readers_eq_map, inWireOrder_map]
  rfl

end FieldType

/-! ## Steps -/

namespace Step

variable {σ α β γ : Type}

theorem pure_bind (a : α) (f : α → Step σ β) : (pure a >>= f) = f a := rfl

theorem map_map (x : Step σ α) (f : α → β) (g : β → γ) :
    ((x >>= fun a => pure (f a)) >>= fun b => pure (g b)) = x >>= fun a => pure (g (f a)) :=
  bind_assoc x _ _

/-- To change each value of a repeated step is to change all of them afterwards. -/
theorem repeated_map (n : Nat) (x : Step σ α) (f : α → β) :
    repeated n (x >>= fun a => pure (f a)) = repeated n x >>= fun as => pure (as.map f) := by
  induction n with
  | zero => rfl
  | succ n ih =>
    simp only [repeated_succ, ih, bind_assoc]
    rfl

theorem forEach_map (g : β → Step σ Unit) (f : α → β) (as : List α) :
    forEach g (as.map f) = forEach (fun a => g (f a)) as := by
  induction as with
  | nil => rfl
  | cons a as ih => rw [List.map_cons, forEach, forEach, ih]

end Step

variable {α β : Type}

/-- Where each element has a value, so has the list. -/
theorem mapM_map_eq_some {γ : Type} {f : α → β} {g : β → Option γ} {h : α → γ}
    {as : List α} (hg : ∀ a ∈ as, g (f a) = some (h a)) :
    (as.map f).mapM g = some (as.map h) := by
  induction as with
  | nil => rfl
  | cons a as ih =>
    rw [List.map_cons, List.mapM_cons, hg a List.mem_cons_self,
      ih fun b hb => hg b (List.mem_cons_of_mem a hb)]
    rfl

/-! ## Field types describe the codec -/

/-- `f` and `x` write and read values as the field type says. -/
structure Describes [Fieldlike α] (t : FieldType) (f : α → Write)
    (x : Read (Option Packet) → Read α) : Prop where
  write : ∀ a, t.write? (toField a) = some (f a)
  read : ∀ reference, t.read reference = x reference >>= fun a => pure (toField a)

theorem describes_bool : Describes .bool Write.bool fun _ => Read.bool where
  write b := by cases b <;> rfl
  read _ := (Step.map_map (Read.word 1) _ _).symm

theorem describes_reference : Describes .packet Packet.writeReference fun reference => reference :=
  ⟨FieldType.write?_packet, fun _ => rfl⟩

/-! ### Sequences -/

theorem describes_flags : Describes (.array .bool) Write.flags fun _ => Read.flags where
  write bs := by
    have hb : (bs.map toField).mapM ofField? = some (bs.map id) :=
      mapM_map_eq_some (f := toField) (g := ofField?) fun _ _ => rfl
    rw [List.map_id] at hb
    exact congrArg (Option.map Write.flags) hb
  read _ := FieldType.read_flags

/-- Flags are packed; all other elements follow each other as they are on their own. -/
theorem Describes.array [Fieldlike α] {t : FieldType} {f : α → Write}
    {x : Read (Option Packet) → Read α} (h : Describes t f x) (ht : t ≠ .bool) :
    Describes (.array t) (Write.sequence f) fun reference => Read.sequence (x reference) where
  write as := by
    show (FieldType.array t).write? (.array (as.map toField)) = _
    rw [FieldType.write?_array ht, mapM_map_eq_some fun a _ => h.write a, Option.map_some,
      Write.sequence, Write.sequence, List.length_map, Step.forEach_map]
    rfl
  read reference := by
    rw [FieldType.read_array ht, h.read, Read.sequence, Read.sequence]
    simp only [Step.repeated_map, Step.bind_assoc]
    rfl

theorem describes_references : Describes (.array .packet) (Write.sequence Packet.writeReference)
    fun reference => Read.sequence reference :=
  describes_reference.array nofun

/-! ### Scalars -/

/-- The field type says how scalars of type `α` are written and read. -/
class ScalarField (t : FieldType) (α : Type) [Scalar α] [Fieldlike α] : Prop where
  ne_bool : t ≠ .bool
  write : ∀ a : α, t.write? (toField a) = some (Scalar.write a)
  read : ∀ reference, t.read reference = Scalar.read >>= fun a : α => pure (toField a)

section
variable {f : Nat → α} {g : α → FieldValue} {width : Nat}

private theorem word_map : (Read.word width >>= fun n => pure (g (f n))) =
    (Read.word width >>= fun n => pure (f n)) >>= fun a => pure (g a) :=
  (Step.map_map _ f g).symm

end

instance : ScalarField .byte Int8 := ⟨nofun, fun _ => rfl, fun _ => word_map⟩
instance : ScalarField .ubyte UInt8 := ⟨nofun, fun _ => rfl, fun _ => word_map⟩
instance : ScalarField .short Int16 := ⟨nofun, fun _ => rfl, fun _ => word_map⟩
instance : ScalarField .ushort UInt16 := ⟨nofun, fun _ => rfl, fun _ => word_map⟩
instance : ScalarField .int Int32 := ⟨nofun, fun _ => rfl, fun _ => word_map⟩
instance : ScalarField .long Int64 := ⟨nofun, fun _ => rfl, fun _ => word_map⟩
instance : ScalarField .float Binary32 := ⟨nofun, fun _ => rfl, fun _ => word_map⟩
instance : ScalarField .double Binary64 := ⟨nofun, fun _ => rfl, fun _ => word_map⟩
instance : ScalarField .string String := ⟨nofun, fun _ => rfl, fun _ => FieldType.read_string⟩

section
variable {t : FieldType} [Scalar α] [Fieldlike α] [h : ScalarField t α]
include h

theorem describes_scalar : Describes (α := α) t Write.scalar fun _ => Read.scalar :=
  ⟨h.write, h.read⟩

theorem describes_scalars :
    Describes (α := List α) (.array t) Write.scalars fun _ => Read.scalars :=
  describes_scalar.array h.ne_bool

end

/-! ### Enumerations -/

/-- The schema has the name and the members of an enumeration, whose members stand in fields by
their ordinals. -/
class EnumField (e : EnumSchema) (α : Type) [Enumerated α] [Fieldlike α] : Prop where
  name : e.name = Enumerated.name α
  length : e.members.length = Enumerated.memberCount α
  toField : ∀ a : α, toField a = .member (Enumerated.ordinal a)
  ofOrdinal? : ∀ ordinal, (Enumerated.ofOrdinal? ordinal : Option α).map Enumerated.ordinal =
    if ordinal.toNat < Enumerated.memberCount α then some ordinal else none

section
variable {e : EnumSchema} [Enumerated α] [Fieldlike α] [h : EnumField e α]
include h

private theorem width_eq : Enumerated.width α = e.width := by
  rw [Enumerated.width_eq, EnumSchema.width, EnumSchema.isLarge, h.length]
  rfl

theorem describes_member :
    Describes (α := α) (.enumeration e) Enumerated.write fun _ => Enumerated.read where
  write a := by rw [h.toField, FieldType.write?, Enumerated.write_eq_word, width_eq (e := e)]
  read _ := by
    rw [FieldType.read, Enumerated.read, Enumerated.readOrdinal_eq_word, width_eq (e := e),
      Step.bind_assoc, Step.bind_assoc]
    congr 1
    funext n
    have ho := h.ofOrdinal? (UInt16.ofNat n)
    rw [h.length, h.name]
    rcases hm : (Enumerated.ofOrdinal? (UInt16.ofNat n) : Option α) with _ | a
    · rw [hm, Option.map_none] at ho
      have hlt : ¬ (UInt16.ofNat n).toNat < Enumerated.memberCount α := fun hlt => by
        rw [if_pos hlt] at ho
        cases ho
      simp only [Step.pure_bind, hm, if_neg hlt]
      rfl
    · rw [hm, Option.map_some] at ho
      split at ho
      · next hlt =>
        simp only [Step.pure_bind, hm, if_pos hlt]
        rw [h.toField, Option.some.inj ho]
      · cases ho

theorem describes_members :
    Describes (α := List α) (.array (.enumeration e)) Write.members fun _ => Read.members :=
  describes_member.array nofun

end

/-- Three members with their ordinals, and no more. -/
private theorem ofOrdinal?_three [Enumerated α] (hc : Enumerated.memberCount α = 3)
    (h0 : (Enumerated.ofOrdinal? 0 : Option α).map Enumerated.ordinal = some 0)
    (h1 : (Enumerated.ofOrdinal? 1 : Option α).map Enumerated.ordinal = some 1)
    (h2 : (Enumerated.ofOrdinal? 2 : Option α).map Enumerated.ordinal = some 2)
    (h3 : ∀ o : UInt16, 3 ≤ o.toNat → (Enumerated.ofOrdinal? o : Option α) = none) (o : UInt16) :
    (Enumerated.ofOrdinal? o : Option α).map Enumerated.ordinal =
      if o.toNat < Enumerated.memberCount α then some o else none := by
  rw [hc]
  split
  · next hlt =>
    have ho : o = 0 ∨ o = 1 ∨ o = 2 := by
      simp only [← UInt16.toNat_inj, UInt16.reduceToNat]
      omega
    rcases ho with rfl | rfl | rfl
    · exact h0
    · exact h1
    · exact h2
  · next hge =>
    rw [h3 o (Nat.not_lt.1 hge)]
    rfl

instance : EnumField DemoColor.schema DemoColor where
  name := rfl
  length := rfl
  toField _ := rfl
  ofOrdinal? := ofOrdinal?_three rfl rfl rfl rfl fun o h => by
    simp only [Enumerated.ofOrdinal?]
    split <;> simp_all

/-- A mean of no known kind is reported under another name than that of the schema. -/
instance : EnumField ⟨"CalcMeanType", MeanKind.schema.members⟩ MeanKind where
  name := rfl
  length := rfl
  toField _ := rfl
  ofOrdinal? := ofOrdinal?_three rfl rfl rfl rfl fun o h => by
    simp only [Enumerated.ofOrdinal?]
    split <;> simp_all

instance : EnumField Wide.schema Wide where
  name := rfl
  length := by simp [Wide.schema, Enumerated.memberCount]
  toField _ := rfl
  ofOrdinal? o := by
    show Option.map Enumerated.ordinal (if o.toNat < 300 then some (⟨o⟩ : Wide) else none) = _
    split <;> simp_all [Enumerated.memberCount, Enumerated.ordinal]

/-! ## Fields one after another -/

section
variable {name : String} {write? : FieldValue → Option Write} {v : FieldValue} {w w' u : Write}
  {writers : List (String × (FieldValue → Option Write))} {fields : List (String × FieldValue)}

theorem writeFields?_cons (h : write? v = some w) (k : writeFields? writers fields = some u) :
    writeFields? ((name, write?) :: writers) ((name, v) :: fields) = some (w >>= fun _ => u) := by
  simp [writeFields?, h, k]

/-- A field that is written in two parts. -/
theorem writeFields?_cons₂ (h : write? v = some (w >>= fun _ => w'))
    (k : writeFields? writers fields = some u) :
    writeFields? ((name, write?) :: writers) ((name, v) :: fields) =
      some (w >>= fun _ => w' >>= fun _ => u) := by
  rw [writeFields?_cons h k, Step.bind_assoc]

/-- The last field, behind which nothing is written. -/
theorem writeFields?_last (h : write? v = some w) :
    writeFields? [(name, write?)] [(name, v)] = some w := by
  rw [writeFields?_cons h rfl]
  exact congrArg some (Step.bind_pure w)

end

/-- The first field is read as its type says, and the others as part of `f`. -/
theorem readFields_cons {γ : Type} [Fieldlike α] {name : String} {read : Read FieldValue}
    {x : Read α} {readers : List (String × Read FieldValue)} {f : α → Read β} {g : β → Read γ}
    {k : List (String × FieldValue) → Read γ} (h : read = x >>= fun a => pure (toField a))
    (hf : ∀ a, (readFields readers >>= fun fields => k ((name, toField a) :: fields)) = f a >>= g) :
    readFields ((name, read) :: readers) >>= k = (x >>= f) >>= g := by
  rw [readFields, h]
  simp only [Step.bind_assoc]
  congr 1
  funext a
  rw [← hf a]
  rfl

end PacketRpc
