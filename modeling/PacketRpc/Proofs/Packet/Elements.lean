import Mathlib.Algebra.GroupWithZero.Nat
import PacketRpc.Proofs.Codec.Elements
import PacketRpc.Proofs.Packet.Description

/-!
# Sequences are no longer than their bytes

Every type of field takes at least so many bytes (`FieldType.least`), and so does every packet that
a schema describes (`PacketSchema.takes`). Only packets in which nothing is held take none: those
without fields, and those that embed no others than such. Sequences of everything else have fewer
elements than bytes, so that a length that is declared beyond what remains is an error
(`Registry.elements_backed`). A sequence of empty packets is its length and nothing else, and is
read as long as that says (`Registry.pings_unbacked`).
-/

namespace PacketRpc

variable {reference : Read (Option Packet)}

/-! ## The least size of a type -/

namespace FieldType

mutual

/-- How many bytes a value of the type takes at least. -/
def least : FieldType → Nat
  | bool | byte | ubyte => 1
  | short | ushort => 2
  | int | float => 4
  | long | double => 8
  | packet => headerSize
  | string | array _ => 1
  | enumeration e => e.width
  | embedded _ fields => leastEach fields

/-- How many bytes the fields take at least. -/
def leastEach : List (String × FieldType) → Nat
  | [] => 0
  | (_, t) :: fields => least t + leastEach fields

end

theorem leastEach_eq_sum (fields : List (String × FieldType)) :
    leastEach fields = (fields.map fun f => f.2.least).sum := by
  induction fields with
  | nil => rw [leastEach, List.map_nil, List.sum_nil]
  | cons f fields ih => rw [leastEach, ih, List.map_cons, List.sum_cons]

/-- The order of fields does not count. -/
theorem leastEach_inWireOrder (fields : List (String × FieldType)) :
    leastEach fields = ((inWireOrder fields).map fun f => f.2.least).sum := by
  rw [leastEach_eq_sum]
  exact ((inWireOrder_perm fields).map _).sum_nat.symm

end FieldType

/-- How many bytes a packet takes at least, without its hash. -/
def PacketSchema.least (s : PacketSchema) : Nat := FieldType.leastEach s.fields

/-! ## Values take what their types say -/

theorem takes_fields {ts : List (String × FieldType)}
    (h : ∀ f ∈ ts, Takes f.2.least (f.2.read reference)) :
    Takes (ts.map fun f => f.2.least).sum
      (readFields (ts.map fun f => (f.1, f.2.read reference))) := by
  induction ts with
  | nil => exact .done []
  | cons f ts ih =>
    rw [List.map_cons, List.sum_cons, List.map_cons, readFields]
    exact (h f List.mem_cons_self).bind fun v =>
      (ih fun g hg => h g (List.mem_cons_of_mem _ hg)).map _

/-- A value stands for as many bytes as its type takes at least. -/
theorem FieldType.takes (hr : Takes headerSize reference) (t : FieldType) :
    Takes t.least (t.read reference) := by
  induction t with
  | packet => exact hr.map _
  | string =>
    rw [read_string]
    exact Takes.text.map _
  | enumeration e =>
    refine (Takes.word e.width).bind fun n => Regular.takes ?_
    simp only
    split
    · exact .done _
    · exact .fail _
  | embedded name fields ih =>
    rw [least, leastEach_inWireOrder, read, readers_eq_map, inWireOrder_map]
    exact (takes_fields fun f hf => ih f (mem_inWireOrder.1 hf)).map _
  | array t ih =>
    by_cases ht : t = bool
    · subst ht
      rw [read_flags]
      exact backed_flags.takes.map _
    · rw [read_array ht]
      exact ih.backed.takes.map _
  | _ => exact (Takes.word _).map _

theorem PacketSchema.takes (hr : Takes headerSize reference) (s : PacketSchema) :
    Takes s.least (s.read reference) := by
  rw [least, FieldType.leastEach_inWireOrder]
  exact takes_fields fun f _ => f.2.takes hr

/-! ## Values that take nothing -/

theorem readFields_of_pure {ts : List (String × FieldType)}
    (h : ∀ f ∈ ts, ∃ v, f.2.read reference = pure v) :
    ∃ vs, readFields (ts.map fun f => (f.1, f.2.read reference)) = pure vs := by
  induction ts with
  | nil => exact ⟨[], rfl⟩
  | cons f ts ih =>
    obtain ⟨v, hv⟩ := h f List.mem_cons_self
    obtain ⟨vs, hvs⟩ := ih fun g hg => h g (List.mem_cons_of_mem _ hg)
    refine ⟨(f.1, v) :: vs, ?_⟩
    rw [List.map_cons, readFields, hv, hvs]
    rfl

theorem least_of_mem {fields : List (String × FieldType)} (h : FieldType.leastEach fields = 0)
    {f : String × FieldType} (hf : f ∈ fields) : f.2.least = 0 := by
  induction fields with
  | nil => cases hf
  | cons g fields ih =>
    rw [FieldType.leastEach, Nat.add_eq_zero_iff] at h
    rcases List.mem_cons.1 hf with rfl | hf
    · exact h.1
    · exact ih h.2 hf

/-- A type that takes no bytes has one value, which is there without reading. -/
theorem FieldType.read_of_least (t : FieldType) (h : t.least = 0) :
    ∃ v, t.read reference = pure v := by
  induction t with
  | embedded name fields ih =>
    rw [read, readers_eq_map, inWireOrder_map]
    have hp : ∀ f ∈ inWireOrder fields, ∃ v, f.2.read reference = pure v := fun f hf =>
      have hm := mem_inWireOrder.1 hf
      ih f hm (least_of_mem h hm)
    obtain ⟨vs, hvs⟩ := readFields_of_pure hp
    exact ⟨.embedded vs, by rw [hvs]; rfl⟩
  | enumeration e =>
    have hw : 0 < e.width := by unfold EnumSchema.width; split <;> decide
    exact absurd h (Nat.ne_of_gt hw)
  | _ => cases h

theorem PacketSchema.read_of_least (s : PacketSchema) (h : s.least = 0) :
    ∃ fields, s.read reference = pure fields :=
  readFields_of_pure fun f hf =>
    f.2.read_of_least (least_of_mem h (mem_inWireOrder.1 hf))

/-! ## Packets -/

namespace Registry

variable (r : Registry)

theorem takes_reference : Takes headerSize r.readReference := by
  rw [readReference_eq]
  refine ((Takes.word 8).map _).bind fun v => Regular.takes ?_
  simp only
  split
  · exact .done none
  · split
    · exact .fail _
    · exact ((composed_body _).map some).regular regular_reference

/-- A body takes what its schema says, since it is read as its schema says. -/
theorem takes_body (t : PacketType) : Takes t.schema.least (r.readBody t) := by
  intro s p u h
  have hf : (r.readBody t >>= fun p => pure p.fields) s = (.ok p.fields, u) := Step.bind_of_ok h _
  rw [readBody_eq] at hf
  exact t.schema.takes r.takes_reference ((Packet.read_schema t).ok_of_ok hf)

theorem least_pos {t : PacketType} (ht : t ≠ .ping) : 0 < t.schema.least := by
  cases t with
  | ping => exact absurd rfl ht
  | everything =>
    simp only [PacketType.schema, PacketSchema.least, Everything.schema, FieldType.leastEach,
      FieldType.least]
    omega
  | _ => decide

/-- **Sequences are no longer than their bytes.** A sequence of scalars, members, references or
packets that are not empty has fewer elements than the bytes that it is read from, and one of flags
fewer than eight times as many; where fewer bytes remain than the length asks for, reading ends with
an error. Of packets that a schema describes it asks for as many as these take at least. If that is
none, there are as many packets as the length says, read from its bytes alone. -/
theorem elements_backed :
    (∀ (α : Type) [Scalar α] [NonemptyScalar α], Backed id (Read.scalars : Read (List α))) ∧
    (∀ (α : Type) [Enumerated α], Backed id (Read.members : Read (List α))) ∧
    Backed id r.readReferences ∧
    (∀ t : PacketType, t ≠ .ping → Backed id (r.readBodies t)) ∧
    (∀ schema : PacketSchema,
      Backed (schema.least * ·) (Read.sequence (schema.read r.readReference))) ∧
    Backed Flags.byteCount Read.flags ∧
    (∀ s fs t, Read.flags s = (.ok fs, t) → ∃ bs, s.Spans bs t ∧ fs.length < 8 * bs.length) ∧
    (∀ s n u, Read.length s = (.ok n, u) →
      r.readBodies .ping s = (.ok (List.replicate n (.ping ⟨⟩)), u)) ∧
    ∀ schema : PacketSchema, schema.least = 0 → ∃ fields, ∀ s n u, Read.length s = (.ok n, u) →
      Read.sequence (schema.read r.readReference) s = (.ok (List.replicate n fields), u) := by
  refine ⟨fun α _ h => h.takes.backed_id Nat.one_pos, fun α _ => ?members,
    r.takes_reference.backed_id (by decide), fun t ht => (r.takes_body t).backed_id (least_pos ht),
    fun schema => (schema.takes r.takes_reference).backed, backed_flags, fun s fs t h => ?flags,
    fun s n u h => ?pings, fun schema hs => ?empty⟩
  case members =>
    refine Takes.member.backed_id ?_
    unfold Enumerated.width
    split <;> decide
  case flags =>
    obtain ⟨bs, hs, hl⟩ := backed_flags.passed h
    refine ⟨bs, hs, ?_⟩
    unfold Flags.byteCount at hl
    omega
  case pings =>
    have hp : r.readBody .ping = pure (.ping ⟨⟩) := r.readBody_eq .ping
    rw [readBodies, hp]
    exact Read.sequence_of_pure _ h
  case empty =>
    obtain ⟨fields, hf⟩ : ∃ fields, schema.read r.readReference = pure fields :=
      schema.read_of_least hs
    refine ⟨fields, fun s n u h => ?_⟩
    rw [hf]
    exact Read.sequence_of_pure _ h

/-- Two bytes for more than two billion numbers, three for four inner packets, and none for two
hundred pings. -/
theorem elements_backed_declared :
    (∃ e u, (Read.scalars : Read (List Int64)) (.start [0xFF, 0x7F, 0xFF, 0xFF, 0xFF, 0, 1]) =
      (.error e, u)) ∧
    (∃ e u, empty.readBodies .demoInner (.start [4, 0, 0, 1]) = (.error e, u)) ∧
    empty.readBodies .ping (.start [200]) = (.ok (.replicate 200 (.ping ⟨⟩)), ⟨1, []⟩) := by
  obtain ⟨scalars, -, -, bodies, -, -, -, pings, -⟩ := empty.elements_backed
  refine ⟨(scalars Int64).refused (n := 2147483647) (t := ⟨5, [0, 1]⟩) rfl (by decide),
    (bodies .demoInner (by decide)).refused (n := 4) (t := ⟨1, [0, 0, 1]⟩) rfl (by decide),
    pings _ 200 ⟨1, []⟩ rfl⟩

/-- One byte that declares three pings is three pings, which are more than the bytes passed. -/
theorem pings_unbacked :
    empty.readBodies .ping (.start [3]) =
      (.ok [.ping ⟨⟩, .ping ⟨⟩, .ping ⟨⟩], ⟨1, []⟩) ∧
    ¬ ∀ s ps t, empty.readBodies .ping s = (.ok ps, t) →
      ps.length ≤ t.position - s.position := by
  have h : empty.readBodies .ping (.start [3]) =
      (.ok [.ping ⟨⟩, .ping ⟨⟩, .ping ⟨⟩], ⟨1, []⟩) := rfl
  exact ⟨h, fun hb => absurd (hb _ _ _ h) (by decide)⟩

end Registry
end PacketRpc
