import Mathlib.Logic.Relation
import PacketRpc.Proofs.Packet.Reading
import PacketRpc.Proofs.Packet.Writing
import PacketRpc.Proofs.Registry.Built

/-!
# Packets survive the wire

A packet is well formed for a registry when every packet in it, itself and all that it refers to
directly or deeper, is of the very type that the registry has under its hash, and holds members of
its enumerations only (`Packet.WellFormed`). The body of such a packet is carried as soon as the
packets that it refers to are (`carries_body`), so that an induction over references carries the
packet with all that hangs on it (`carries_reference`).

`Envelope.read_serialize`: a well-formed packet without an overlong sequence can be written, and is
read back from what was written, whatever follows.
-/

namespace PacketRpc

open Enumerated (IsMember)

instance : LawfulEnumerated DemoColor where
  ofOrdinal?_ordinal {c} _ := by cases c <;> rfl

instance : LawfulEnumerated MeanKind where
  ofOrdinal?_ordinal {k} _ := by cases k <;> rfl

theorem carries_inner (c : DemoInner) : Carries c.write DemoInner.read c :=
  (carries_int32 c.value).map _

namespace Packet

/-! ## References -/

/-- The packets that a packet refers to. -/
def references : Packet → List Packet
  | .everything c => c.aRef.filterMap id ++ c.fRef.toList
  | _ => []

/-- `p.Reaches q`: `q` is `p`, or a packet that `p` refers to directly or deeper. -/
abbrev Reaches : Packet → Packet → Prop := Relation.ReflTransGen fun p q => q ∈ p.references

theorem mem_references {c : Everything Packet} {q : Packet} :
    q ∈ (everything c).references ↔ some q ∈ c.aRef ∨ c.fRef = some q := by
  simp [references]

/-- What holds of a packet as soon as it holds of those that it refers to holds of all packets. -/
theorem induct_references {P : Packet → Prop} (h : ∀ p, (∀ q ∈ p.references, P q) → P p)
    (p : Packet) : P p := by
  refine writeBody.induct P (fun r => ∀ q, r = some q → P q) (fun rs => ∀ q, some q ∈ rs → P q)
    ?_ ?_ ?_ ?everything ?_ ?_ ?_ ?_ ?_ ?_ ?_ ?_ ?_ ?nil ?cons ?none ?some p
  case everything =>
    intro c hs hr
    refine h _ fun q hq => ?_
    rcases mem_references.1 hq with hq | hq
    · exact hs q hq
    · exact hr q hq
  case nil => simp
  case cons =>
    intro r rs hr hrs q hq
    rcases List.mem_cons.1 hq with hq | hq
    · exact hr q hq.symm
    · exact hrs q hq
  case none => simp
  case some =>
    intro p hp q hq
    cases hq
    exact hp
  -- no other packet refers to any
  all_goals exact fun _ => h _ (by simp [references])

/-! ## Well-formed packets -/

/-- The values of enumerations that the packet itself holds are members. -/
def HasMembers : Packet → Prop
  | .everything c =>
    (∀ a ∈ c.aColor, IsMember a) ∧ (∀ a ∈ c.aWide, IsMember a) ∧ IsMember c.fColor ∧
      IsMember c.fWide
  | .calcMean c => IsMember c.kind
  | _ => True

/-- Every packet in `p` is of the very type that the registry has under its hash, and holds members
of its enumerations only. -/
def WellFormed (r : Registry) (p : Packet) : Prop :=
  ∀ q, p.Reaches q → r.knows q = true ∧ q.HasMembers

theorem wellFormed_iff {r : Registry} {p : Packet} : p.WellFormed r ↔
    r.knows p = true ∧ p.HasMembers ∧ ∀ q ∈ p.references, q.WellFormed r := by
  constructor
  · intro h
    obtain ⟨hk, hm⟩ := h p .refl
    exact ⟨hk, hm, fun q hq s hs => h s (.head hq hs)⟩
  · rintro ⟨hk, hm, hr⟩ q hq
    rcases hq.cases_head with rfl | ⟨s, hs, hq⟩
    · exact ⟨hk, hm⟩
    · exact hr s hs q hq

theorem wellFormed_of_references {r : Registry} {p : Packet} (hk : r.knows p = true)
    (hm : p.HasMembers) (hn : p.references = []) : p.WellFormed r :=
  wellFormed_iff.2 ⟨hk, hm, by simp [hn]⟩

/-! ## Bodies and references -/

theorem writeReferences_eq (rs : List (Option Packet)) :
    writeReferences rs = Step.forEach writeReference rs := by
  induction rs with
  | nil => rw [writeReferences]; rfl
  | cons r rs ih => rw [writeReferences, ih]; rfl

section
variable {reference : Read (Option Packet)} (hnone : Carries (writeReference none) reference none)
include hnone

theorem carries_everything {c : Everything Packet} (hm : (everything c).HasMembers)
    (h : ∀ q ∈ (everything c).references, Carries (writeReference (some q)) reference (some q)) :
    Carries (writeBody (.everything c)) (readBody reference .everything) (.everything c) := by
  obtain ⟨hColors, hWides, hColor, hWide⟩ := hm
  have hr : ∀ r : Option Packet, (∀ q, r = some q → q ∈ (everything c).references) →
      Carries (writeReference r) reference r := by
    rintro (_ | q) hq
    · exact hnone
    · exact h q (hq q rfl)
  have hRefs := carries_sequence fun r (hm : r ∈ c.aRef) =>
    hr r fun q hq => mem_references.2 (.inl (hq ▸ hm))
  have hRef := hr c.fRef fun q hq => mem_references.2 (.inr hq)
  rw [writeBody, writeReferences_eq]
  exact (carries_flags _).bind <| (carries_scalars _).bind <| (carries_members hColors).bind <|
    (carries_scalars _).bind <| (carries_scalars _).bind <|
    (carries_sequence fun _ _ => carries_inner _).bind <| (carries_scalars _).bind <|
    (carries_scalars _).bind <| hRefs.bind_bind <| (carries_scalars _).bind <|
    (carries_scalars _).bind <| (carries_scalars _).bind <| (carries_scalars _).bind <|
    (carries_members hWides).bind <| (carries_bool _).bind <| (carries_scalar _).bind <|
    (carries_member hColor).bind <| (carries_scalar _).bind <| (carries_scalar _).bind <|
    (carries_inner _).bind <| (carries_scalar _).bind <| (carries_scalar _).bind <|
    hRef.bind <| (carries_scalar _).bind <| (carries_scalar _).bind <| (carries_scalar _).bind <|
    (carries_scalar _).bind <| (carries_member hWide).map _

/-- A body is carried as soon as the packets that it refers to are. -/
theorem carries_body {p : Packet} (hm : p.HasMembers)
    (h : ∀ q ∈ p.references, Carries (writeReference (some q)) reference (some q)) :
    Carries p.writeBody (readBody reference p.type) p := by
  cases p with
  | everything c => exact carries_everything hnone hm h
  | primitives c =>
    rw [writeBody]
    exact (carries_bool _).bind <| (carries_scalar _).bind <| (carries_scalar _).bind <|
      (carries_scalar _).map _
  | calcMean c =>
    rw [writeBody]
    exact (carries_member hm).bind ((carries_scalars _).map _)
  | demoInner c =>
    rw [writeBody]
    exact (carries_inner c).map _
  | calcSum c =>
    rw [writeBody]
    exact (carries_scalars _).map _
  | ping c =>
    rw [writeBody]
    exact .done _
  | impostor c | rpcResult c | rpcError c | echo c | clientEcho c | unhandled c | nullHash c =>
    rw [writeBody]
    exact (carries_scalar _).map _

end

theorem carries_reference {r : Registry} (hr : r.Built) (p : Packet) (hw : p.WellFormed r) :
    Carries (writeReference (some p)) r.readReference (some p) := by
  have hnone : Carries (writeReference none) r.readReference none := by
    rw [writeReference, Registry.readReference_eq]
    exact (carries_int64 0).last rfl
  induction p using induct_references with
  | h p ih =>
    obtain ⟨hk, hm, hrefs⟩ := wellFormed_iff.1 hw
    have ht : r.typeOf? p.hash = some p.type := by simpa [Registry.knows] using hk
    have hbody := (carries_body hnone hm fun q hq => ih q hq (hrefs q hq)).map some
    rw [writeReference, Registry.readReference_eq]
    refine (carries_int64 p.hash.value).bind ?_
    have hh : PacketHash.mk p.hash.value = p.hash := rfl
    simp only [hh, (hr.hash_of_typeOf? ht).2, ht]
    exact hbody

end Packet

/-! ## Envelopes -/

namespace Envelope

open Packet (WellFormed)

variable {r : Registry} {p : Packet} {bs : List UInt8}

theorem serialize_eq_ok : serialize p = .ok bs ↔
    write p Writer.empty = (.ok (), Writer.empty.append bs) := by
  unfold serialize
  rcases write p Writer.empty with ⟨_ | a, w⟩
  · simp
  · simp [← Writer.toList_inj]

/-- What was written of a well-formed packet yields that packet. -/
theorem yields_serialize (hr : r.Built) (hw : p.WellFormed r) (hs : serialize p = .ok bs) :
    Yields (read r) bs (.ok (some p)) := by
  obtain ⟨cs, hc, hy⟩ := Packet.carries_reference hr p hw (serialize_eq_ok.1 hs)
  obtain rfl : bs = cs := by simpa [← Writer.toList_inj] using hc
  exact hy

/-- A packet without an overlong sequence can be written. -/
theorem exists_serialize (hl : ∀ n ∈ p.lengths, n ≤ maxLength) : ∃ bs, serialize p = .ok bs := by
  have hv : (write p Writer.empty).1 = .ok () :=
    (measured_packet.2.1 (some p) Writer.empty).trans (by
      rw [Packet.lengthsOf, verdict_eq_ok hl])
  rcases hw : write p Writer.empty with ⟨_ | a, w⟩
  · rw [hw] at hv
    cases hv
  · exact ⟨w.toList, by rw [serialize, hw]⟩

/-- A packet with an overlong sequence cannot: the first of them is the error. -/
theorem serialize_eq_error {n : Nat} (hl : p.lengths.find? (maxLength < ·) = some n) :
    serialize p = .error (.lengthOverflow n) := by
  have hv : (write p Writer.empty).1 = .error (.lengthOverflow n) :=
    (measured_packet.2.1 (some p) Writer.empty).trans (by
      rw [Packet.lengthsOf, verdict, hl])
  rcases hw : write p Writer.empty with ⟨e | a, w⟩
  · rw [hw] at hv
    cases hv
    rw [serialize, hw]
  · rw [hw] at hv
    cases hv

/-- **A packet survives the wire.** A well-formed packet without an overlong sequence can be
written, and wherever what was written stands, the same packet is read back, up to the last byte. -/
theorem read_serialize (hr : r.Built) (hw : p.WellFormed r) (hl : ∀ n ∈ p.lengths, n ≤ maxLength) :
    ∃ bs, serialize p = .ok bs ∧
      ∀ s, read r (.start (bs ++ s)) = (.ok (some p), ⟨bs.length, s⟩) := by
  obtain ⟨bs, hs⟩ := exists_serialize hl
  refine ⟨bs, hs, fun s => ?_⟩
  rw [Reader.start, yields_serialize hr hw hs 0 s, Nat.zero_add]

/-- A packet that refers to another of its own type, which refers to a third; the double is a
signalling NaN. -/
theorem read_serialize_nested :
    let r := Registry.ofTypes [.primitives, .demoInner, .everything]
    let q := Packet.everything { aWide := [⟨299⟩], fString := "q", fRef := some (.demoInner ⟨5⟩) }
    let p := Packet.everything
      { aBool := [true, false], aRef := [none, some q], fDouble := ⟨0x7FF0000000000001⟩ }
    (r.Built ∧ p.WellFormed r ∧ ∀ n ∈ p.lengths, n ≤ maxLength) ∧
    ∃ bs, serialize p = .ok bs ∧
      ∀ s, read r (.start (bs ++ s)) = (.ok (some p), ⟨bs.length, s⟩) := by
  intro r q p
  have hi : (Packet.demoInner ⟨5⟩).WellFormed r :=
    Packet.wellFormed_of_references (by decide) trivial rfl
  have hq : q.WellFormed r := by
    refine Packet.wellFormed_iff.2 ⟨by decide, ⟨by decide, by decide, by decide, by decide⟩, ?_⟩
    intro s hs
    obtain rfl : s = .demoInner ⟨5⟩ := by simpa [q, Packet.mem_references, eq_comm] using hs
    exact hi
  have hp : p.WellFormed r := by
    refine Packet.wellFormed_iff.2 ⟨by decide, ⟨by decide, by decide, by decide, by decide⟩, ?_⟩
    intro s hs
    obtain rfl : s = q := by simpa [p, Packet.mem_references] using hs
    exact hq
  have hl : ∀ n ∈ p.lengths, n ≤ maxLength := by
    simp [p, q, Packet.lengths, Packet.lengthsOf, Packet.lengthsOfEach, maxLength]
    decide
  exact ⟨⟨.ofTypes _, hp, hl⟩, read_serialize (.ofTypes _) hp hl⟩

end Envelope
end PacketRpc
