import PacketRpc.Proofs.Codec.Respelling
import PacketRpc.Proofs.Schema.Codec

/-!
# Spellings of fields

The type of a field says where the deviations of a value are (`FieldType.deviations`), as it says
how the value is written and read. What is read as a type says is respelled, provided that
references are (`respells_field`), and so are the fields that a schema lists (`respells_schema`).
-/

namespace PacketRpc

namespace Deviation

/-- Passes over a word, which cannot deviate. -/
def ofWord (width : Nat) : Read (List Deviation) := do
  let _ ← Read.word width
  return []

/-- Passes over one part after another. -/
def ofEach : List (Read (List Deviation)) → Read (List Deviation)
  | [] => pure []
  | x :: xs => do
    let ds ← x
    let es ← ofEach xs
    return ds ++ es

end Deviation

open Deviation (ofBool ofWord ofText ofFlags ofSequence ofEach)

/-! ## Deviations by types -/

namespace FieldType

variable (reference : Read (List Deviation))

mutual

/-- Passes over a value as a type says, with `reference` for packets that are referred to. -/
def deviations : FieldType → Read (List Deviation)
  | bool => ofBool
  | byte | ubyte => ofWord 1
  | short | ushort => ofWord 2
  | int | float => ofWord 4
  | long | double => ofWord 8
  | string => ofText
  | packet => reference
  | enumeration e => ofWord e.width
  | embedded _ fields => ofEach ((inWireOrder (deviationsEach fields)).map (·.2))
  | array bool => ofFlags
  | array t => ofSequence (deviations t)

/-- The fields with the deviations of their types. -/
def deviationsEach : List (String × FieldType) → List (String × Read (List Deviation))
  | [] => []
  | (name, t) :: fields => (name, deviations t) :: deviationsEach fields

end

theorem deviations_array {t : FieldType} (ht : t ≠ bool) :
    deviations reference (array t) = ofSequence (deviations reference t) := by
  cases t
  case bool => exact absurd rfl ht
  all_goals rfl

theorem deviationsEach_eq_map (fields : List (String × FieldType)) :
    deviationsEach reference fields = fields.map fun f => (f.1, f.2.deviations reference) := by
  induction fields with
  | nil => rw [deviationsEach, List.map_nil]
  | cons f fields ih => rw [deviationsEach, ih, List.map_cons]

end FieldType

/-- Passes over the fields of a packet in wire order, each as its type says. -/
def PacketSchema.deviations (s : PacketSchema) (reference : Read (List Deviation)) :
    Read (List Deviation) :=
  ofEach (s.wireFields.map fun f => f.2.deviations reference)

/-! ## Fields -/

section
variable {reference : Read (Option Packet)} {deviations : Read (List Deviation)}

theorem respells_fields {fields : List (String × FieldType)}
    (h : ∀ f ∈ fields, Respells (f.2.read reference) (f.2.deviations deviations) f.2.write?) :
    Respells (readFields (fields.map fun f => (f.1, f.2.read reference)))
      (ofEach (fields.map fun f => f.2.deviations deviations))
      (writeFields? (fields.map fun f => (f.1, f.2.write?))) := by
  induction fields with
  | nil =>
    intro s values t hx
    cases hx
    exact ⟨pure (), [], rfl, rfl, .done [] _⟩
  | cons f fields ih =>
    intro s values t hx
    obtain ⟨v, u, hv, hx⟩ := Step.bind_eq_ok hx
    obtain ⟨vs, u', hvs, hu⟩ := Step.bind_eq_ok hx
    cases hu
    obtain ⟨w, ds, hw, hd, hr⟩ := h f List.mem_cons_self hv
    obtain ⟨ws, es, hws, he, hrs⟩ := ih (fun g hg => h g (List.mem_cons_of_mem f hg)) hvs
    refine ⟨w >>= fun _ => ws, ds ++ es, ?_, ?_, hr.bind (hrs.last rfl)⟩
    · rw [List.map_cons, writeFields?, if_pos rfl, hw, hws]
      rfl
    · rw [List.map_cons, ofEach, Step.bind_of_ok hd, Step.bind_of_ok he]
      rfl

/-- A field type respells the values that it describes. -/
theorem Describes.respells {α : Type} [Fieldlike α] {t : FieldType} {f : α → Write}
    {x : Read (Option Packet) → Read α} {y : Read (List Deviation)} (h : Describes t f x)
    (hx : Respells (x reference) y fun a => some (f a)) :
    Respells (t.read reference) y t.write? := by
  rw [h.read]
  exact hx.map h.write

/-- A scalar that is read from a word and written as that word is respelled. -/
theorem respells_scalar {α : Type} [Scalar α] [Fieldlike α] {t : FieldType} [ScalarField t α]
    {width : Nat} {g : Nat → α} (hx : Scalar.read = Read.word width >>= fun n => pure (g n))
    (hg : ∀ n < BigEndian.limit width, Scalar.write (g n) = Write.word width n) :
    Respells (t.read reference) (ofWord width) t.write? := by
  refine (describes_scalar (α := α)).respells fun s a u ha => ?_
  rw [Read.scalar, hx] at ha ⊢
  obtain ⟨n, v, hn, hv⟩ := Step.bind_eq_ok ha
  cases hv
  exact ⟨_, [], congrArg some (hg n (Read.word_eq_ok hn).1), Step.bind_of_ok hn _,
    (respelling_word hn).last rfl⟩

theorem respells_enumeration (e : EnumSchema) :
    Respells ((FieldType.enumeration e).read reference) (ofWord e.width)
      (FieldType.enumeration e).write? := by
  intro s v t hx
  obtain ⟨n, u, hn, hx⟩ := Step.bind_eq_ok hx
  have hlt : n < 65536 := by
    have := (Read.word_eq_ok hn).1
    unfold EnumSchema.width at this
    split at this
    · exact this
    · exact Nat.lt_trans this (by decide)
  simp only at hx
  split at hx
  · next hm =>
    cases hx
    exact ⟨_, [], congrArg (fun m => some (Write.word e.width m)) (UInt16.toNat_ofNat_of_lt hlt),
      Step.bind_of_ok hn _, (respelling_word hn).last (if_pos hm)⟩
  · cases hx

variable (hr : Respells reference deviations fun p => some (Packet.writeReference p))
include hr

/-- **What is read as a type says** is respelled where references are. -/
theorem respells_field (t : FieldType) :
    Respells (t.read reference) (t.deviations deviations) t.write? := by
  induction t with
  | bool => exact describes_bool.respells (.of_respelling respelling_bool)
  | string => exact (describes_scalar (α := String)).respells (.of_respelling respelling_text)
  | packet => exact describes_reference.respells hr
  | byte =>
    exact respells_scalar (α := Int8) rfl fun _ hn =>
      congrArg (Write.word 1) (UInt8.toNat_ofNat_of_lt hn)
  | ubyte =>
    exact respells_scalar (α := UInt8) rfl fun _ hn =>
      congrArg (Write.word 1) (UInt8.toNat_ofNat_of_lt hn)
  | short =>
    exact respells_scalar (α := Int16) rfl fun _ hn =>
      congrArg (Write.word 2) (UInt16.toNat_ofNat_of_lt hn)
  | ushort =>
    exact respells_scalar (α := UInt16) rfl fun _ hn =>
      congrArg (Write.word 2) (UInt16.toNat_ofNat_of_lt hn)
  | int =>
    exact respells_scalar (α := Int32) rfl fun _ hn =>
      congrArg (Write.word 4) (UInt32.toNat_ofNat_of_lt hn)
  | long =>
    exact respells_scalar (α := Int64) rfl fun _ hn =>
      congrArg (Write.word 8) (UInt64.toNat_ofNat_of_lt hn)
  | float =>
    exact respells_scalar (α := Binary32) rfl fun _ hn =>
      congrArg (Write.word 4) (UInt32.toNat_ofNat_of_lt hn)
  | double =>
    exact respells_scalar (α := Binary64) rfl fun _ hn =>
      congrArg (Write.word 8) (UInt64.toNat_ofNat_of_lt hn)
  | enumeration e => exact respells_enumeration e
  | embedded name fields ih =>
    rw [FieldType.read, FieldType.deviations, FieldType.readers_eq_map,
      FieldType.deviationsEach_eq_map, inWireOrder_map, inWireOrder_map, List.map_map]
    refine (respells_fields fun f hf => ih f (mem_inWireOrder.1 hf)).map fun values => ?_
    rw [FieldType.write?, FieldType.writers_eq_map, inWireOrder_map]
  | array t ih =>
    -- flags are packed, and have deviations of their own
    by_cases ht : t = .bool
    · rw [ht]
      exact describes_flags.respells (.of_respelling respelling_flags)
    · rw [FieldType.read_array ht, FieldType.deviations_array _ ht]
      refine ih.sequence.map fun vs => ?_
      exact FieldType.write?_array ht vs

/-- What is read as a schema says is respelled where references are. -/
theorem respells_schema (s : PacketSchema) :
    Respells (s.read reference) (s.deviations deviations) s.write? :=
  respells_fields fun f _ => respells_field hr f.2

end
end PacketRpc
