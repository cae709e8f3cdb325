import PacketRpc.Proofs.Packet.Description
import PacketRpc.Proofs.Schema.Size

/-!
# How many bytes packets take

What a packet holds can be told from its fields: the packets that it refers to (`references_eq`) and
the lengths that are written of it (`lengths_eq`). So its body has the size that its schema gives
its fields, and the bodies of the packets that it refers to in addition (`Packet.bodySize`,
`Packet.sized_body`), and a length stands in it exactly where some packet that it reaches has a
sequence of that length in a field of its own (`mem_lengths_iff`).

`Envelope.serialize_outcome` puts this together: writing fails exactly on overlong sequences, the
first of them being the error, and has the size of the fields otherwise.
-/

namespace PacketRpc

/-! ## Lists of parts -/

theorem flatMap_nil {α β : Type} (as : List α) : (as.flatMap fun _ => ([] : List β)) = [] :=
  List.flatMap_eq_nil_iff.2 fun _ _ => rfl

theorem flatMap_toList {α : Type} (as : List (Option α)) :
    as.flatMap Option.toList = as.filterMap id := by
  induction as with
  | nil => rfl
  | cons a as ih => cases a <;> simp [ih]

/-- Fields are written where they stand under the names that the writers are for. -/
theorem names_of_writeFields? {writers : List (String × (FieldValue → Option Write))}
    {fields : List (String × FieldValue)} {w : Write} (h : writeFields? writers fields = some w) :
    fields.map Prod.fst = writers.map Prod.fst := by
  induction writers generalizing fields w with
  | nil =>
    cases fields with
    | nil => rfl
    | cons f fields => cases h
  | cons g writers ih =>
    cases fields with
    | nil => cases h
    | cons f fields =>
      rw [writeFields?] at h
      split at h
      · next hn =>
        obtain ⟨v, -, h⟩ := Option.bind_eq_some_iff.1 h
        obtain ⟨u, hu, -⟩ := Option.bind_eq_some_iff.1 h
        rw [List.map_cons, List.map_cons, ih hu, hn]
      · cases h

namespace Packet

/-! ## Fields and what they hold -/

theorem lengthsOfEach_eq (rs : List (Option Packet)) :
    lengthsOfEach rs = rs.flatMap lengthsOf := by
  induction rs with
  | nil => rw [lengthsOfEach, List.flatMap_nil]
  | cons r rs ih => rw [lengthsOfEach, ih, List.flatMap_cons]

/-- A packet refers to what its fields refer to. -/
theorem references_eq (p : Packet) : p.references = p.fields.flatMap fun f => f.2.packets := by
  cases p <;> simp [references, fields, toField, FieldValue.packets, FieldValue.collect,
    FieldValue.collectEach_eq, FieldValue.collectFields_eq, List.flatMap_map, flatMap_nil,
    flatMap_toList]

/-- The lengths of a packet are those of its fields, where a reference has the lengths of the packet
that it refers to. -/
theorem lengths_eq (p : Packet) : p.lengths = p.fields.flatMap fun f => f.2.lengths lengthsOf := by
  cases p <;> simp [lengths, fields, toField, FieldValue.lengths, FieldValue.collect,
    FieldValue.collectEach_eq, FieldValue.collectFields_eq, List.flatMap_map, lengthsOfEach_eq,
    ← List.map_eq_flatMap, flatMap_nil]

/-- The fields stand in wire order. -/
theorem names_fields (p : Packet) :
    p.fields.map Prod.fst = p.type.schema.wireFields.map Prod.fst := by
  have h := names_of_writeFields? (write?_fields p)
  rwa [List.map_map] at h

/-- The lengths of the strings and sequences in a packet itself, those that it embeds included. -/
def ownLengths (p : Packet) : List Nat := p.fields.flatMap fun f => f.2.lengths fun _ => []

theorem mem_lengths {p : Packet} {n : Nat} :
    n ∈ p.lengths ↔ n ∈ p.ownLengths ∨ ∃ q ∈ p.references, n ∈ q.lengths := by
  rw [lengths_eq, references_eq, ownLengths]
  exact FieldValue.mem_flatMap_or fun f _ => FieldValue.mem_collect (by rw [lengthsOf]) f.2

/-- A length stands in a packet where some packet that it reaches has it. -/
theorem mem_lengths_iff {p : Packet} {n : Nat} :
    n ∈ p.lengths ↔ ∃ q, p.Reaches q ∧ n ∈ q.ownLengths := by
  induction p using induct_references with
  | h p ih =>
    rw [mem_lengths]
    constructor
    · rintro (h | ⟨q, hq, h⟩)
      · exact ⟨p, .refl, h⟩
      · obtain ⟨s, hs, h⟩ := (ih q hq).1 h
        exact ⟨s, .head hq hs, h⟩
    · rintro ⟨s, hs, h⟩
      rcases hs.cases_head with rfl | ⟨q, hq, hs⟩
      · exact .inl h
      · exact .inr ⟨q, hq, (ih q hq).2 ⟨s, hs, h⟩⟩

/-! ## Bodies -/

theorem sizeOf_lt_of_mem_references {p q : Packet} (h : q ∈ p.references) :
    sizeOf q < sizeOf p := by
  cases p with
  | everything c =>
    have hrs : sizeOf c.aRef < sizeOf c := by
      cases c
      simp only [Everything.mk.sizeOf_spec]
      omega
    have hr : sizeOf c.fRef < sizeOf c := by
      cases c
      simp only [Everything.mk.sizeOf_spec]
      omega
    have hsome : sizeOf (some q) < sizeOf c := by
      rcases mem_references.1 h with h | h
      · exact Nat.lt_trans (List.sizeOf_lt_of_mem h) hrs
      · rwa [h] at hr
    rw [Option.some.sizeOf_spec] at hsome
    rw [everything.sizeOf_spec]
    omega
  | _ => cases h

/-- How many bytes the body takes: its fields, and the bodies of the packets they refer to. -/
def bodySize (p : Packet) : Nat :=
  p.type.schema.size p.fields + (p.references.attach.map fun q => bodySize q.1).sum
termination_by p
decreasing_by exact sizeOf_lt_of_mem_references q.2

theorem bodySize_eq (p : Packet) :
    p.bodySize = p.type.schema.size p.fields + (p.references.map bodySize).sum := by
  rw [bodySize, List.attach_map_val (f := bodySize)]

/-- The body of a packet with one field, which refers to no packet, is that field. -/
theorem bodySize_single {p : Packet} {name field : String} {t : FieldType} {v : FieldValue}
    (hs : p.type.schema = ⟨name, [(field, t)]⟩) (hf : p.fields = [(field, v)])
    (hr : p.references = []) : p.bodySize = t.size v := by
  rw [bodySize_eq, PacketSchema.size, hs, PacketSchema.wireFields_singleton, hf, hr]
  exact Nat.add_zero _

/-- **A body has the size of its packet.** -/
theorem sized_body (p : Packet) : Sized p.writeBody p.bodySize := by
  induction p using induct_references with
  | h p ih =>
    rw [references_eq] at ih
    rw [bodySize_eq, references_eq]
    exact sized_fields (fun f _ => FieldType.sized f.2) ih (write?_fields p)

end Packet

namespace Envelope

/-- A packet can be written exactly where no length in it is too great. -/
theorem exists_serialize_iff {p : Packet} :
    (∃ bs, serialize p = .ok bs) ↔ ∀ n ∈ p.lengths, n ≤ maxLength := by
  refine ⟨?_, exists_serialize⟩
  rintro ⟨bs, hs⟩ n hn
  by_contra hle
  have hfind : (p.lengths.find? (maxLength < ·)).isSome :=
    List.find?_isSome.2 ⟨n, hn, decide_eq_true (Nat.lt_of_not_le hle)⟩
  obtain ⟨m, hm⟩ := Option.isSome_iff_exists.1 hfind
  rw [serialize_eq_error hm] at hs
  cases hs

/-- A packet that has been written takes the hash and its body. -/
theorem length_serialize {p : Packet} {bs : List UInt8} (h : serialize p = .ok bs) :
    bs.length = headerSize + p.bodySize := by
  have hw := serialize_eq_ok.1 h
  rw [write, Packet.writeReference] at hw
  obtain ⟨cs, hc, hl⟩ := ((Sized.word 8 _).bind p.sized_body) hw
  obtain rfl : bs = cs := by simpa [← Writer.toList_inj] using hc
  exact hl

/-- **Writing fails exactly on overlong sequences.** A packet cannot be written if and only if some
packet that it reaches, itself included, has a sequence in a field of its own that is too long. The
lengths are met field by field in wire order, a reference with those of the packet that it refers
to; the first that is too long is the error. Where there is none, the packet takes the hash, and in
the body the size of its fields and the bodies of the packets that they refer to. -/
theorem serialize_outcome (p : Packet) :
    ((∃ e, serialize p = .error e) ↔ ∃ q, p.Reaches q ∧ ∃ n ∈ q.ownLengths, maxLength < n) ∧
    (match p.lengths.find? (maxLength < ·) with
      | some n => serialize p = .error (.lengthOverflow n)
      | none => ∃ bs, serialize p = .ok bs ∧ bs.length = headerSize + p.bodySize) ∧
    p.lengths = (p.fields.flatMap fun f => f.2.lengths Packet.lengthsOf) ∧
    p.fields.map Prod.fst = p.type.schema.wireFields.map Prod.fst ∧
    p.bodySize = p.type.schema.size p.fields + (p.references.map Packet.bodySize).sum := by
  have hlong : (∃ q, p.Reaches q ∧ ∃ n ∈ q.ownLengths, maxLength < n) ↔
      ∃ n ∈ p.lengths, maxLength < n := by
    constructor
    · rintro ⟨q, hq, n, hn, hlt⟩
      exact ⟨n, Packet.mem_lengths_iff.2 ⟨q, hq, hn⟩, hlt⟩
    · rintro ⟨n, hn, hlt⟩
      obtain ⟨q, hq, hn⟩ := Packet.mem_lengths_iff.1 hn
      exact ⟨q, hq, n, hn, hlt⟩
  rw [hlong]
  refine ⟨?_, ?_, p.lengths_eq, p.names_fields, p.bodySize_eq⟩
  · constructor
    · rintro ⟨e, he⟩
      by_contra hno
      obtain ⟨bs, hs⟩ := exists_serialize fun n hn => Nat.le_of_not_lt fun hlt => hno ⟨n, hn, hlt⟩
      rw [hs] at he
      cases he
    · rintro ⟨n, hn, hlt⟩
      rcases hs : serialize p with e | bs
      · exact ⟨e, rfl⟩
      · exact absurd (exists_serialize_iff.1 ⟨bs, hs⟩ n hn) (Nat.not_le.2 hlt)
  · split
    · next n hn => exact serialize_eq_error hn
    · next hnone =>
      obtain ⟨bs, hs⟩ := exists_serialize fun n hn =>
        Nat.le_of_not_lt fun hlt => List.find?_eq_none.1 hnone n hn (decide_eq_true hlt)
      exact ⟨bs, hs, length_serialize hs⟩

end Envelope
end PacketRpc
