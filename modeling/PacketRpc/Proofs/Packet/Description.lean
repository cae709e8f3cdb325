import PacketRpc.Proofs.Packet.RoundTrip
import PacketRpc.Proofs.Schema.Codec

/-!
# Packets are what their schemas say

The body of a packet is written and read field by field, in an order and in forms that are given
again, independently, by the schema of its type. Both agree on every packet and on every input
(`Packet.body_of_schema`): writing the fields of a packet as the schema says is writing its body
(`Packet.write?_fields`), and reading them so is reading a body and taking it apart
(`Packet.read_schema`), up to the name under which a mean of no known kind is reported. Nothing of a
packet is lost when it is taken apart (`Packet.ofFields?_fields`).
-/

namespace PacketRpc

/-! ## Taking apart and putting together -/

/-- What is put into a field is found there. -/
class LawfulFieldlike (α : Type) [Fieldlike α] : Prop where
  ofField?_toField : ∀ a : α, ofField? (toField a) = some a

export LawfulFieldlike (ofField?_toField)

instance : LawfulFieldlike Bool := ⟨fun _ => rfl⟩
instance : LawfulFieldlike Int8 := ⟨fun _ => rfl⟩
instance : LawfulFieldlike UInt8 := ⟨fun _ => rfl⟩
instance : LawfulFieldlike Int16 := ⟨fun _ => rfl⟩
instance : LawfulFieldlike UInt16 := ⟨fun _ => rfl⟩
instance : LawfulFieldlike Int32 := ⟨fun _ => rfl⟩
instance : LawfulFieldlike Int64 := ⟨fun _ => rfl⟩
instance : LawfulFieldlike Binary32 := ⟨fun _ => rfl⟩
instance : LawfulFieldlike Binary64 := ⟨fun _ => rfl⟩
instance : LawfulFieldlike String := ⟨fun _ => rfl⟩
instance : LawfulFieldlike (Option Packet) := ⟨fun _ => rfl⟩
instance : LawfulFieldlike DemoColor := ⟨fun c => by cases c <;> rfl⟩
instance : LawfulFieldlike MeanKind := ⟨fun k => by cases k <;> rfl⟩
instance : LawfulFieldlike DemoInner := ⟨fun _ => rfl⟩
instance {name : String} {count : Nat} : LawfulFieldlike (Ordinal name count) := ⟨fun _ => rfl⟩

instance {α : Type} [Fieldlike α] [h : LawfulFieldlike α] : LawfulFieldlike (List α) where
  ofField?_toField as := by
    have hs := mapM_map_eq_some (f := toField) (g := ofField?) (h := id) fun a (_ : a ∈ as) =>
      h.ofField?_toField a
    rwa [List.map_id] at hs

section
variable {α : Type} [Fieldlike α] {missing : α} {fields : List (String × FieldValue)}

theorem fieldOr_cons_self (name : String) (v : FieldValue) :
    fieldOr missing ((name, v) :: fields) name = ofField? v := by
  rw [fieldOr, List.lookup_cons_self]

theorem fieldOr_cons_of_ne {name name' : String} (v : FieldValue) (h : name ≠ name') :
    fieldOr missing ((name', v) :: fields) name = fieldOr missing fields name := by
  rw [fieldOr, fieldOr, List.lookup_cons, beq_false_of_ne h]

end

/-- The fields of a packet and its type give the packet back. -/
theorem Packet.ofFields?_fields (p : Packet) : ofFields? p.type p.fields = some p := by
  cases p <;> simp [ofFields?, fields, type, fieldOr_cons_self, fieldOr_cons_of_ne,
    ofField?_toField]

/-! ## Fields in wire order -/

namespace PacketSchema

variable {name field : String} {t : FieldType} {v : FieldValue} {w : Write}
  {reference : Read (Option Packet)}

theorem wireFields_singleton : (⟨name, [(field, t)]⟩ : PacketSchema).wireFields = [(field, t)] :=
  List.mergeSort_singleton _

theorem write?_singleton (h : t.write? v = some w) :
    (⟨name, [(field, t)]⟩ : PacketSchema).write? [(field, v)] = some w := by
  rw [write?, wireFields_singleton]
  exact writeFields?_last h

theorem read_singleton {α β : Type} [Fieldlike α] {x : Read α} {f : α → β}
    {g : β → List (String × FieldValue)} (h : t.read reference = x >>= fun a => pure (toField a))
    (hg : ∀ a, g (f a) = [(field, toField a)]) :
    (⟨name, [(field, t)]⟩ : PacketSchema).read reference =
      (x >>= fun a => pure (f a)) >>= fun b => pure (g b) := by
  rw [read, wireFields_singleton]
  refine (Step.bind_pure _).symm.trans (readFields_cons h fun a => ?_)
  show (pure [(field, toField a)] : Read _) = pure (g (f a))
  rw [hg]

end PacketSchema

theorem Primitives.wireFields_eq : PacketType.primitives.schema.wireFields =
    PacketType.primitives.schema.fields.reverse :=
  inWireOrder_eq (List.reverse_perm _).symm (by decide)

theorem Ping.wireFields_eq : PacketType.ping.schema.wireFields = [] :=
  inWireOrder_eq .nil (by decide)

theorem CalcMean.wireFields_eq : PacketType.calcMean.schema.wireFields =
    PacketType.calcMean.schema.fields :=
  inWireOrder_eq (.refl _) (by decide)

theorem Everything.wireFields_eq : Everything.schema.wireFields =
    Everything.schema.fields.drop 14 ++ Everything.schema.fields.take 14 := by
  refine inWireOrder_eq (.trans ?_ List.perm_append_comm) (by decide)
  rw [List.take_append_drop]

/-! ## Values of steps -/

namespace Step

variable {σ α β : Type} {P : β → Prop}

/-- Every value that comes of the step has the property. -/
def Gives (P : α → Prop) (x : Step σ α) : Prop := ∀ ⦃s a t⦄, x s = (.ok a, t) → P a

theorem Gives.done {b : β} (h : P b) : Gives P (pure b : Step σ β) := by
  intro s b t hb
  cases hb
  exact h

theorem Gives.bind {x : Step σ α} {f : α → Step σ β} (h : ∀ a, Gives P (f a)) :
    Gives P (x >>= f) := by
  intro s b t hb
  obtain ⟨a, u, -, hf⟩ := bind_eq_ok hb
  exact h a hf

end Step

/-! ## Names of enumerations -/

section
variable {α β : Type} {x y : Read α}

/-- The reads end alike, but for the name of an enumeration that lacks an ordinal. -/
def SameButName (x y : Read α) : Prop := ∀ s, (x s).2 = (y s).2 ∧
  ((x s).1 = (y s).1 ∨ ∃ name name' ordinal members,
    (x s).1 = .error (.badEnum name ordinal members) ∧
    (y s).1 = .error (.badEnum name' ordinal members))

namespace SameButName

theorem refl (x : Read α) : SameButName x x := fun _ => ⟨rfl, .inl rfl⟩

theorem symm (h : SameButName x y) : SameButName y x := by
  intro s
  obtain ⟨ht, ho | ⟨name, name', ordinal, members, hx, hy⟩⟩ := h s
  · exact ⟨ht.symm, .inl ho.symm⟩
  · exact ⟨ht.symm, .inr ⟨name', name, ordinal, members, hy, hx⟩⟩

theorem bind (h : SameButName x y) (f : α → Read β) : SameButName (x >>= f) (y >>= f) := by
  intro s
  obtain ⟨ht, ho | ⟨name, name', ordinal, members, hx, hy⟩⟩ := h s
  · have hs : x s = y s := Prod.ext ho ht
    rw [Step.bind_apply, Step.bind_apply, hs]
    exact ⟨rfl, .inl rfl⟩
  · rw [Step.bind_of_error (Prod.ext hx rfl), Step.bind_of_error (Prod.ext hy rfl)]
    exact ⟨ht, .inr ⟨_, _, _, _, rfl, rfl⟩⟩

/-- A value that one of them gives is given by the other. -/
theorem ok_of_ok (h : SameButName x y) {s t : Reader} {a : α} (hy : y s = (.ok a, t)) :
    x s = (.ok a, t) := by
  obtain ⟨ht, ho | ⟨_, _, _, _, -, he⟩⟩ := h s
  · rw [← hy]
    exact Prod.ext ho ht
  · rw [hy] at he
    cases he

theorem enumeration {e e' : EnumSchema} {reference : Read (Option Packet)}
    (h : e.members = e'.members) : SameButName ((FieldType.enumeration e).read reference)
      ((FieldType.enumeration e').read reference) := by
  have hw : e.width = e'.width := by rw [EnumSchema.width, EnumSchema.isLarge, h]; rfl
  intro s
  rw [FieldType.read, FieldType.read, hw, h, Step.bind_apply, Step.bind_apply]
  rcases Read.word e'.width s with ⟨_ | n, t⟩
  · exact ⟨rfl, .inl rfl⟩
  · simp only
    split
    · exact ⟨rfl, .inl rfl⟩
    · exact ⟨rfl, .inr ⟨_, _, _, _, rfl, rfl⟩⟩

end SameButName
end

namespace Packet

variable {reference : Read (Option Packet)}

/-! ## Writing -/

theorem read_inner : DemoInner.schema.read reference =
    DemoInner.read >>= fun c => pure [("value", toField c.value)] :=
  PacketSchema.read_singleton (describes_scalar.read _) fun _ => rfl

theorem describes_inner :
    Describes DemoInner.schema.embed DemoInner.write fun _ => DemoInner.read where
  write c := by
    show DemoInner.schema.embed.write? (.embedded [("value", .int c.value)]) = _
    rw [FieldType.write?_embed]
    exact PacketSchema.write?_singleton rfl
  read reference := by
    rw [FieldType.read_embed, read_inner, Step.map_map]
    rfl

theorem describes_inners : Describes (.array DemoInner.schema.embed)
    (Write.sequence DemoInner.write) fun _ => Read.sequence DemoInner.read :=
  describes_inner.array nofun

theorem write?_everything (c : Everything Packet) :
    Everything.schema.write? (fields (.everything c)) = some (writeBody (.everything c)) := by
  have references : (FieldType.array .packet).write? (toField c.aRef) =
      some (Write.length c.aRef.length >>= fun _ => writeReferences c.aRef) := by
    rw [writeReferences_eq]
    exact describes_references.write c.aRef
  rw [PacketSchema.write?, Everything.wireFields_eq, writeBody]
  exact writeFields?_cons (describes_flags.write _) <|
    writeFields?_cons (describes_scalars.write _) <|
    writeFields?_cons (describes_members.write _) <|
    writeFields?_cons (describes_scalars.write _) <|
    writeFields?_cons (describes_scalars.write _) <|
    writeFields?_cons (describes_inners.write _) <|
    writeFields?_cons (describes_scalars.write _) <|
    writeFields?_cons (describes_scalars.write _) <|
    writeFields?_cons₂ references <|
    writeFields?_cons (describes_scalars.write _) <|
    writeFields?_cons (describes_scalars.write _) <|
    writeFields?_cons (describes_scalars.write _) <|
    writeFields?_cons (describes_scalars.write _) <|
    writeFields?_cons (describes_members.write _) <|
    writeFields?_cons (describes_bool.write _) <|
    writeFields?_cons (describes_scalar.write _) <|
    writeFields?_cons (describes_member.write _) <|
    writeFields?_cons (describes_scalar.write _) <|
    writeFields?_cons (describes_scalar.write _) <|
    writeFields?_cons (describes_inner.write _) <|
    writeFields?_cons (describes_scalar.write _) <|
    writeFields?_cons (describes_scalar.write _) <|
    writeFields?_cons (describes_reference.write _) <|
    writeFields?_cons (describes_scalar.write _) <|
    writeFields?_cons (describes_scalar.write _) <|
    writeFields?_cons (describes_scalar.write _) <|
    writeFields?_cons (describes_scalar.write _) <|
    writeFields?_last (describes_member.write _)

theorem read_everything : Everything.schema.read reference =
    readBody reference .everything >>= fun p => pure p.fields := by
  rw [PacketSchema.read, Everything.wireFields_eq]
  refine (Step.bind_pure _).symm.trans ?_
  exact readFields_cons (describes_flags.read _) fun _ =>
    readFields_cons (describes_scalars.read _) fun _ =>
    readFields_cons (describes_members.read _) fun _ =>
    readFields_cons (describes_scalars.read _) fun _ =>
    readFields_cons (describes_scalars.read _) fun _ =>
    readFields_cons (describes_inners.read _) fun _ =>
    readFields_cons (describes_scalars.read _) fun _ =>
    readFields_cons (describes_scalars.read _) fun _ =>
    readFields_cons (describes_references.read _) fun _ =>
    readFields_cons (describes_scalars.read _) fun _ =>
    readFields_cons (describes_scalars.read _) fun _ =>
    readFields_cons (describes_scalars.read _) fun _ =>
    readFields_cons (describes_scalars.read _) fun _ =>
    readFields_cons (describes_members.read _) fun _ =>
    readFields_cons (describes_bool.read _) fun _ =>
    readFields_cons (describes_scalar.read _) fun _ =>
    readFields_cons (describes_member.read _) fun _ =>
    readFields_cons (describes_scalar.read _) fun _ =>
    readFields_cons (describes_scalar.read _) fun _ =>
    readFields_cons (describes_inner.read _) fun _ =>
    readFields_cons (describes_scalar.read _) fun _ =>
    readFields_cons (describes_scalar.read _) fun _ =>
    readFields_cons (describes_reference.read _) fun _ =>
    readFields_cons (describes_scalar.read _) fun _ =>
    readFields_cons (describes_scalar.read _) fun _ =>
    readFields_cons (describes_scalar.read _) fun _ =>
    readFields_cons (describes_scalar.read _) fun _ =>
    readFields_cons (describes_member.read _) fun _ => rfl

/-- **What is written of a packet** is what its schema says of its fields. -/
theorem write?_fields (p : Packet) : p.type.schema.write? p.fields = some p.writeBody := by
  cases p with
  | everything c => exact write?_everything c
  | primitives c =>
    rw [type, PacketSchema.write?, Primitives.wireFields_eq, writeBody]
    exact writeFields?_cons (describes_bool.write _) <|
      writeFields?_cons (describes_scalar.write _) <|
      writeFields?_cons (describes_scalar.write _) <|
      writeFields?_last (describes_scalar.write _)
  | calcMean c =>
    rw [type, PacketSchema.write?, CalcMean.wireFields_eq, writeBody]
    exact writeFields?_cons
      ((describes_member (e := ⟨"CalcMeanType", MeanKind.schema.members⟩)).write c.kind) <|
      writeFields?_last (describes_scalars.write _)
  | ping c =>
    rw [type, PacketSchema.write?, Ping.wireFields_eq, writeBody]
    rfl
  | calcSum c =>
    rw [writeBody]
    exact PacketSchema.write?_singleton (describes_scalars.write _)
  | demoInner c =>
    rw [writeBody]
    exact PacketSchema.write?_singleton (describes_scalar.write _)
  | impostor c | rpcResult c | rpcError c | echo c | clientEcho c | unhandled c | nullHash c =>
    rw [writeBody]
    exact PacketSchema.write?_singleton (describes_scalar.write _)

/-! ## Reading -/

/-- All types but one name their enumerations as their schemas do. -/
theorem read_schema_of_ne {t : PacketType} (ht : t ≠ .calcMean) :
    t.schema.read reference = readBody reference t >>= fun p => pure p.fields := by
  cases t with
  | everything => exact read_everything
  | primitives =>
    rw [PacketSchema.read, Primitives.wireFields_eq]
    refine (Step.bind_pure _).symm.trans ?_
    exact readFields_cons (describes_bool.read _) fun _ =>
      readFields_cons (describes_scalar.read _) fun _ =>
      readFields_cons (describes_scalar.read _) fun _ =>
      readFields_cons (describes_scalar.read _) fun _ => rfl
  | calcMean => exact absurd rfl ht
  | ping =>
    rw [PacketSchema.read, Ping.wireFields_eq]
    rfl
  | calcSum => exact PacketSchema.read_singleton (describes_scalars.read _) fun _ => rfl
  | demoInner => exact read_inner.trans (Step.map_map DemoInner.read demoInner fields).symm
  | impostor | rpcResult | rpcError | echo | clientEcho | unhandled | nullHash =>
    exact PacketSchema.read_singleton (describes_scalar.read _) fun _ => rfl

theorem read_calcMean : SameButName (PacketType.calcMean.schema.read reference)
    (readBody reference .calcMean >>= fun p => pure p.fields) := by
  let e : EnumSchema := ⟨"CalcMeanType", MeanKind.schema.members⟩
  have named : readFields [("type", (FieldType.enumeration e).read reference),
      ("values", (FieldType.array .float).read reference)] =
      readBody reference .calcMean >>= fun p => pure p.fields := by
    refine (Step.bind_pure _).symm.trans ?_
    exact readFields_cons (describes_member.read _) fun _ =>
      readFields_cons (describes_scalars.read _) fun _ => rfl
  have kinds : SameButName ((FieldType.enumeration MeanKind.schema).read reference)
      ((FieldType.enumeration e).read reference) := .enumeration rfl
  rw [PacketSchema.read, CalcMean.wireFields_eq, ← named]
  exact kinds.bind _

/-- **Reading the fields that a schema lists** is reading a body of its type. -/
theorem read_schema (t : PacketType) : SameButName (t.schema.read reference)
    (readBody reference t >>= fun p => pure p.fields) := by
  by_cases ht : t = .calcMean
  · rw [ht]
    exact read_calcMean
  · rw [read_schema_of_ne ht]
    exact .refl _

/-- A body of a type is read as a packet of that type. -/
theorem type_of_readBody (t : PacketType) :
    Step.Gives (fun p => p.type = t) (readBody reference t) := by
  cases t
  all_goals
    unfold readBody
    repeat refine .bind fun _ => ?_
    exact .done rfl

end Packet

/-! ## Descriptions -/

theorem Registry.readBody_eq (r : Registry) (t : PacketType) :
    r.readBody t = Packet.readBody r.readReference t := by
  funext s
  refine (composed_body t).congr (regular_within _) (fun u hu => ?_) s (Nat.le_refl _)
  exact (readReference_of_le (Nat.div_le_div_right hu)).symm

/-- **Packets are what their schemas say.** The body of a packet is written as its fields, in wire
order and each by its type alone. Reading a body gives, with the fields of the packet, the values
that the field types read, or the error that they end with, and ends where they end; only a mean of
no known kind is reported under another name than that of its schema. The packet read is of the type
asked for, and its type and fields give it back. -/
theorem Packet.body_of_schema (r : Registry) :
    (∀ p : Packet, p.type.schema.write? p.fields = some p.writeBody) ∧
    (∀ t : PacketType,
      SameButName (t.schema.read r.readReference) (do return (← r.readBody t).fields) ∧
      (t ≠ .calcMean → t.schema.read r.readReference = do return (← r.readBody t).fields)) ∧
    (∀ t s p u, r.readBody t s = (.ok p, u) → p.type = t) ∧
    ∀ p : Packet, ofFields? p.type p.fields = some p := by
  refine ⟨write?_fields, fun t => ?_, fun t s p u h => ?_, ofFields?_fields⟩
  · rw [r.readBody_eq]
    exact ⟨read_schema t, read_schema_of_ne⟩
  · rw [r.readBody_eq] at h
    exact type_of_readBody t h

end PacketRpc
