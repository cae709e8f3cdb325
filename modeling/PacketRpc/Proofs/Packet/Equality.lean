import PacketRpc.Packet.Equality
import PacketRpc.Proofs.Number.Equality
import PacketRpc.Proofs.Packet.Size
import PacketRpc.Proofs.Wire.Separation

/-!
# Equality of packets

Packets are equal on the wire when their hashes and the bytes of their bodies are. Between packets
that are known by their hashes, with all that they refer to, this is equality of types and fields,
floats by their bits (`Packet.sameWire_iff_eq`): the bodies of two packets of one type are separated
as soon as those of the packets that they refer to are (`Packet.separates_body`), so that an
induction over references separates all known packets (`Packet.separates_known`). Members of
enumerations are not asked for: ordinals that no member has are told apart as well.

Where no float of their own is a NaN or the negative zero, equality of all fields is the same
(`Packet.same_iff_eq`).
-/

namespace PacketRpc

open Enumerated (IsMember)

attribute [ext] Everything

theorem Sized.appends {w : Write} {n : Nat} (h : Sized w n) : Appends w := by
  intro s t hw
  obtain ⟨bs, ht, -⟩ := h hw
  exact ⟨bs, ht⟩

namespace Packet

/-- The packet can be written. -/
def Encodes (p : Packet) : Prop := ∃ bs, Envelope.serialize p = .ok bs

/-- Every packet in `p` is of the very type that the registry has under its hash. -/
def KnownTo (r : Registry) (p : Packet) : Prop := ∀ q, p.Reaches q → r.knows q = true

variable {r : Registry} {p q : Packet}

/-! ## Bodies -/

theorem isMember_color (c : DemoColor) : IsMember c := by cases c <;> decide

theorem isMember_kind (k : MeanKind) : IsMember k := by cases k <;> decide

/-- Wide ordinals are told apart, whether or not a member has them. -/
theorem carries_wide (a : Wide) :
    Carries (Enumerated.write a) (Read.uint16 >>= fun v => pure (⟨v⟩ : Wide)) a :=
  (carries_uint16 a.value).map Ordinal.mk

theorem appends_reference (o : Option Packet) : Appends (writeReference o) := by
  cases o with
  | none =>
    rw [writeReference]
    exact (carries_int64 0).appends
  | some p =>
    rw [writeReference]
    exact (carries_int64 _).appends.bind p.sized_body.appends

theorem separates_everything {c c' : Everything Packet}
    (h : ∀ o ∈ c.fRef :: c.aRef, ∀ o' ∈ c'.fRef :: c'.aRef,
      Separates (writeReference o) (writeReference o') (o = o')) :
    Separates (writeBody (.everything c)) (writeBody (.everything c')) (c = c') := by
  have colors := separates_of_carries fun as : List DemoColor =>
    carries_members fun a _ => isMember_color a
  have color := separates_of_carries fun a : DemoColor => carries_member (isMember_color a)
  have inners := separates_of_carries fun as : List DemoInner =>
    carries_sequence fun a _ => carries_inner a
  have wides := separates_of_carries fun as : List Wide =>
    carries_sequence fun a _ => carries_wide a
  have references := Separates.sequence (fun o (_ : o ∈ c.aRef) => appends_reference o)
    (fun o (_ : o ∈ c'.aRef) => appends_reference o) fun o ho o' ho' =>
      h o (List.mem_cons_of_mem _ ho) o' (List.mem_cons_of_mem _ ho')
  have reference := h c.fRef List.mem_cons_self c'.fRef List.mem_cons_self
  rw [writeBody, writeBody, writeReferences_eq, writeReferences_eq]
  -- the fields are declared in wire order, so that their equalities come in that order
  refine Separates.imp ?_ Everything.ext_iff.2
  exact (separates_of_carries carries_flags _ _).bind <| (separates_scalars _ _).bind <|
    (colors _ _).bind <| (separates_scalars _ _).bind <| (separates_scalars _ _).bind <|
    (inners _ _).bind <| (separates_scalars _ _).bind <| (separates_scalars _ _).bind <|
    references.bind_bind <| (separates_scalars _ _).bind <| (separates_scalars _ _).bind <|
    (separates_scalars _ _).bind <| (separates_scalars _ _).bind <| (wides _ _).bind <|
    (separates_of_carries carries_bool _ _).bind <| (separates_scalar _ _).bind <|
    (color _ _).bind <| (separates_scalar _ _).bind <| (separates_scalar _ _).bind <|
    (separates_of_carries carries_inner _ _).bind <| (separates_scalar _ _).bind <|
    (separates_scalar _ _).bind <| reference.bind <| (separates_scalar _ _).bind <|
    (separates_scalar _ _).bind <| (separates_scalar _ _).bind <| (separates_scalar _ _).bind <|
    separates_of_carries carries_wide _ _

/-- A body in which there is no place for references is carried, whatever reads references. -/
theorem carries_alone {reference : Read (Option Packet)}
    (hnone : Carries (writeReference none) reference none) (h : p.type ≠ .everything) :
    Carries p.writeBody (readBody reference p.type) p := by
  have hm : p.HasMembers := by
    cases p
    case everything c => exact absurd rfl h
    case calcMean c => exact isMember_kind c.kind
    all_goals trivial
  have hn : p.references = [] := by
    cases p
    case everything c => exact absurd rfl h
    all_goals rfl
  exact carries_body hnone hm (by simp [hn])

/-- Under one hash a registry has one type. -/
theorem type_eq_of_hash (hp : r.knows p = true) (hq : r.knows q = true) (h : p.hash = q.hash) :
    p.type = q.type := by
  have ht : r.typeOf? p.hash = some p.type := beq_iff_eq.1 hp
  rw [h, beq_iff_eq.1 hq] at ht
  exact (Option.some.inj ht).symm

theorem hash_ne_null (hr : r.Built) (hp : r.knows p = true) :
    p.hash.value ≠ PacketHash.null.value := by
  have hn := (hr.hash_of_typeOf? (beq_iff_eq.1 hp)).2
  exact bne_iff_ne.1 (congrArg not hn)

/-- No reference to a known packet begins like none. -/
theorem separates_none (hr : r.Built) (hq : r.knows q = true) :
    Separates (writeReference none) (writeReference (some q)) False := by
  have bare : Write.int64 PacketHash.null.value =
      Write.int64 PacketHash.null.value >>= fun _ => pure () := (Step.bind_pure _).symm
  rw [writeReference, writeReference, bare]
  refine ((separates_of_carries carries_int64 _ _).bind_of .done q.sized_body.appends ?_).imp
    And.right
  exact fun hz => absurd hz.symm (hash_ne_null hr hq)

/-- References are separated when the bodies of packets of one type are. -/
theorem separates_references (hr : r.Built) {o o' : Option Packet}
    (ho : ∀ p ∈ o, r.knows p = true) (ho' : ∀ q ∈ o', r.knows q = true)
    (h : ∀ p ∈ o, ∀ q ∈ o', p.type = q.type → Separates p.writeBody q.writeBody (p = q)) :
    Separates (writeReference o) (writeReference o') (o = o') := by
  cases o with
  | none =>
    cases o' with
    | none =>
      rw [writeReference]
      exact (separates_of_carries carries_int64 _ _).imp fun _ => rfl
    | some q => exact (separates_none hr (ho' q rfl)).imp False.elim
  | some p =>
    cases o' with
    | none => exact (separates_none hr (ho p rfl)).symm.imp False.elim
    | some q =>
      rw [writeReference, writeReference]
      refine ((separates_of_carries carries_int64 _ _).bind_of p.sized_body.appends
        q.sized_body.appends fun hz => ?_).imp fun hpq => congrArg some hpq.2
      exact h p rfl q rfl (type_eq_of_hash (ho p rfl) (ho' q rfl) (congrArg PacketHash.mk hz))

theorem mem_references_of_mem {c : Everything Packet} {o : Option Packet}
    (ho : o ∈ c.fRef :: c.aRef) (hp : p ∈ o) : p ∈ (everything c).references := by
  obtain rfl := hp
  exact mem_references.2 ((List.mem_cons.1 ho).symm.imp_right Eq.symm)

/-- Bodies of one type are separated when those that they refer to are. -/
theorem separates_body (hr : r.Built) (ht : p.type = q.type)
    (hp : ∀ a ∈ p.references, r.knows a = true) (hq : ∀ b ∈ q.references, r.knows b = true)
    (h : ∀ a ∈ p.references, ∀ b ∈ q.references, a.type = b.type →
      Separates a.writeBody b.writeBody (a = b)) :
    Separates p.writeBody q.writeBody (p = q) := by
  by_cases he : p.type = .everything
  · obtain ⟨c, rfl⟩ : ∃ c, p = .everything c := by cases p <;> cases he; exact ⟨_, rfl⟩
    obtain ⟨c', rfl⟩ : ∃ c, q = .everything c := by cases q <;> cases ht; exact ⟨_, rfl⟩
    refine (separates_everything fun o ho o' ho' => ?_).imp fun h => congrArg everything h
    refine separates_references hr (fun a ha => hp a (mem_references_of_mem ho ha))
      (fun b hb => hq b (mem_references_of_mem ho' hb)) fun a ha b hb => ?_
    exact h a (mem_references_of_mem ho ha) b (mem_references_of_mem ho' hb)
  · have hnone : Carries (writeReference none)
        (Read.int64 >>= fun _ => pure (none : Option Packet)) none := by
      rw [writeReference]
      exact (carries_int64 0).map _
    have hcarries := carries_alone hnone (p := q) (ht ▸ he)
    rw [← ht] at hcarries
    exact (carries_alone hnone he).separates hcarries

/-- **The bodies of known packets of one type are told apart**, with all that they refer to. -/
theorem separates_known (hr : r.Built) (hp : p.KnownTo r) (hq : q.KnownTo r)
    (ht : p.type = q.type) : Separates p.writeBody q.writeBody (p = q) := by
  -- on what `p` refers to, for every `q`; what does not match in type is told apart by the hash
  induction p using induct_references generalizing q with
  | h p ih =>
    refine separates_body hr ht (fun a ha => hp a (.single ha)) (fun b hb => hq b (.single hb)) ?_
    intro a ha b hb hab
    exact ih a ha (fun s hs => hp s (.head ha hs)) (fun s hs => hq s (.head hb hs)) hab

/-! ## Equality on the wire -/

theorem bodyBytes_eq_ok {bs : List UInt8} :
    p.bodyBytes = .ok bs ↔ p.writeBody Writer.empty = (.ok (), Writer.empty.append bs) := by
  unfold bodyBytes
  rcases p.writeBody Writer.empty with ⟨_ | a, w⟩
  · simp
  · simp [← Writer.toList_inj]

theorem encodes_iff_lengths : p.Encodes ↔ ∀ n ∈ p.lengths, n ≤ maxLength :=
  Envelope.exists_serialize_iff

/-- What a packet refers to can be written when the packet can. -/
theorem Encodes.of_mem (h : p.Encodes) (hq : q ∈ p.references) : q.Encodes :=
  encodes_iff_lengths.2 fun n hn => encodes_iff_lengths.1 h n (mem_lengths.2 (.inr ⟨q, hq, hn⟩))

theorem Encodes.exists_bodyBytes (h : p.Encodes) : ∃ bs, p.bodyBytes = .ok bs := by
  have hv : (p.writeBody Writer.empty).1 = .ok () :=
    (measured_packet.1 p _).trans (verdict_eq_ok (encodes_iff_lengths.1 h))
  rcases hw : p.writeBody Writer.empty with ⟨_ | a, w⟩
  · rw [hw] at hv
    cases hv
  · exact ⟨w.toList, by rw [bodyBytes, hw]⟩

/-- Equality on the wire is equality of the hashes and of the bytes of the bodies. -/
theorem sameWire_iff : p.sameWire q = true ↔
    p.hash = q.hash ∧ ∃ bs, p.bodyBytes = .ok bs ∧ q.bodyBytes = .ok bs := by
  rw [sameWire, Bool.and_eq_true, beq_iff_eq]
  refine and_congr_right fun _ => ?_
  rcases p.bodyBytes with _ | bs
  · simp
  · rcases q.bodyBytes with _ | cs
    · simp
    · rw [beq_iff_eq]
      constructor
      · rintro rfl
        exact ⟨bs, rfl, rfl⟩
      · rintro ⟨_, hb, hc⟩
        cases hb
        cases hc
        rfl

theorem Encodes.sameWire_self (h : p.Encodes) : p.sameWire p = true := by
  obtain ⟨bs, hb⟩ := h.exists_bodyBytes
  exact sameWire_iff.2 ⟨rfl, bs, hb, hb⟩

theorem sameWire_symm (h : p.sameWire q = true) : q.sameWire p = true := by
  obtain ⟨hh, bs, hp, hq⟩ := sameWire_iff.1 h
  exact sameWire_iff.2 ⟨hh.symm, bs, hq, hp⟩

theorem sameWire_trans {s : Packet} (h : p.sameWire q = true) (k : q.sameWire s = true) :
    p.sameWire s = true := by
  obtain ⟨hh, bs, hp, hq⟩ := sameWire_iff.1 h
  obtain ⟨hk, cs, hq', hs⟩ := sameWire_iff.1 k
  rw [hq] at hq'
  cases hq'
  exact sameWire_iff.2 ⟨hh.trans hk, bs, hp, hs⟩

theorem sameWire_iff_eq (hr : r.Built) (he : p.Encodes) (hp : p.KnownTo r) (hq : q.KnownTo r) :
    p.sameWire q = true ↔ p = q := by
  constructor
  · intro h
    obtain ⟨hh, bs, hbp, hbq⟩ := sameWire_iff.1 h
    have hs := separates_known hr hp hq (type_eq_of_hash (hp p .refl) (hq q .refl) hh)
    exact (hs.apart (bodyBytes_eq_ok.1 hbp) (bodyBytes_eq_ok.1 hbq)
      (rfl : bs ++ [] = bs ++ [])).2
  · rintro rfl
    exact he.sameWire_self

end Packet

/-! ## Equality of contents -/

theorem sameElements_iff {α : Type} {same : α → α → Bool} {as bs : List α}
    (h : ∀ a ∈ as, ∀ b ∈ bs, same a b = true ↔ a = b) :
    sameElements same as bs = true ↔ as = bs := by
  induction as generalizing bs with
  | nil => cases bs <;> simp [sameElements]
  | cons a as ih =>
    cases bs with
    | nil => simp [sameElements]
    | cons b bs =>
      have ht := ih fun c hc d hd => h c (List.mem_cons_of_mem a hc) d (List.mem_cons_of_mem b hd)
      rw [sameElements, Bool.and_eq_true, h a List.mem_cons_self b List.mem_cons_self, ht,
        List.cons.injEq]

namespace Everything

/-- No float among the fields themselves is a NaN or the negative zero. -/
structure HasPlainFloats (c : Everything Packet) : Prop where
  doubles : ∀ x ∈ c.aDouble, x.IsPlain
  floats : ∀ x ∈ c.aFloat, x.IsPlain
  double : c.fDouble.IsPlain
  float : c.fFloat.IsPlain

/-- Equality of the fields is equality where it is on references, and floats are plain. -/
theorem same_iff {c c' : Everything Packet} (hc : c.HasPlainFloats) (hc' : c'.HasPlainFloats)
    (href : ∀ o ∈ c.fRef :: c.aRef, ∀ o' ∈ c'.fRef :: c'.aRef,
      Packet.sameReference o o' = true ↔ o = o') :
    c.same c' = true ↔ c = c' := by
  have doubles := sameElements_iff fun x hx y hy =>
    Binary64.sameNumber_iff (hc.doubles x hx) (hc'.doubles y hy)
  have floats := sameElements_iff fun x hx y hy =>
    Binary32.sameNumber_iff (hc.floats x hx) (hc'.floats y hy)
  have double := Binary64.sameNumber_iff hc.double hc'.double
  have float := Binary32.sameNumber_iff hc.float hc'.float
  have refs := sameElements_iff fun o (ho : o ∈ c.aRef) o' (ho' : o' ∈ c'.aRef) =>
    href o (List.mem_cons_of_mem _ ho) o' (List.mem_cons_of_mem _ ho')
  have ref := href c.fRef List.mem_cons_self c'.fRef List.mem_cons_self
  rw [Everything.ext_iff, same]
  simp only [Bool.and_eq_true, beq_iff_eq, doubles, floats, double, float, refs, ref, and_assoc]

end Everything

namespace Packet

variable {r : Registry}

theorem sameReference_iff (hr : r.Built) {o o' : Option Packet}
    (ho : ∀ p ∈ o, p.Encodes ∧ p.KnownTo r) (ho' : ∀ q ∈ o', q.KnownTo r) :
    sameReference o o' = true ↔ o = o' := by
  cases o with
  | none => cases o' <;> simp [sameReference]
  | some p =>
    cases o' with
    | none => simp [sameReference]
    | some q =>
      obtain ⟨he, hk⟩ := ho p rfl
      rw [sameReference, sameWire_iff_eq hr he hk (ho' q rfl), Option.some.injEq]

/-- Packets that refer to what is known are equal in all fields only where they are equal. -/
theorem same_iff_eq (hr : r.Built) {c c' : Everything Packet} (he : (everything c).Encodes)
    (hk : (everything c).KnownTo r) (hk' : (everything c').KnownTo r) (hc : c.HasPlainFloats)
    (hc' : c'.HasPlainFloats) : c.same c' = true ↔ c = c' := by
  refine Everything.same_iff hc hc' fun o ho o' ho' => ?_
  refine sameReference_iff hr (fun p hp => ⟨he.of_mem (mem_references_of_mem ho hp), ?_⟩) ?_
  · exact fun s hs => hk s (.head (mem_references_of_mem ho hp) hs)
  · exact fun q hq s hs => hk' s (.head (mem_references_of_mem ho' hq) hs)

/-- **Equality of packets is sound.** On packets that can be written it is an equivalence. Between
packets that can be written and are known to one registry, with all that they refer to, it is
equality: of the types and of all fields, floats by their bits and references as packets. So where
the floats that two such packets hold themselves are neither NaNs nor the negative zero, equality of
all fields is the same. -/
theorem sameWire_sound :
    Equivalence (fun p q : {p : Packet // p.Encodes} => p.1.sameWire q.1 = true) ∧
    ∀ r : Registry, r.Built →
      (∀ p q : Packet, p.Encodes → q.Encodes → p.KnownTo r → q.KnownTo r →
        (p.sameWire q = true ↔ p = q)) ∧
      ∀ c c' : Everything Packet, (everything c).Encodes → (everything c').Encodes →
        (everything c).KnownTo r → (everything c').KnownTo r → c.HasPlainFloats →
        c'.HasPlainFloats → c.same c' = (everything c).sameWire (everything c') := by
  refine ⟨⟨fun p => p.2.sameWire_self, sameWire_symm, sameWire_trans⟩, fun r hr => ⟨?_, ?_⟩⟩
  · exact fun p q he _ hp hq => sameWire_iff_eq hr he hp hq
  · intro c c' he _ hk hk' hc hc'
    rw [Bool.eq_iff_iff, same_iff_eq hr he hk hk' hc hc', sameWire_iff_eq hr he hk hk',
      everything.injEq]

/-- Two packets that differ in a NaN of a packet that they refer to. -/
theorem sameWire_sound_nan :
    let r := Registry.ofTypes [.rpcResult, .everything]
    let c : Everything Packet :=
      { fFloat := ⟨0x3F800000⟩, fRef := some (.rpcResult ⟨⟨0x7FC00000⟩⟩) }
    let c' : Everything Packet :=
      { fFloat := ⟨0x3F800000⟩, fRef := some (.rpcResult ⟨⟨0x7FC00001⟩⟩) }
    (r.Built ∧ ((everything c).Encodes ∧ (everything c').Encodes) ∧
      ((everything c).KnownTo r ∧ (everything c').KnownTo r) ∧
      c.HasPlainFloats ∧ c'.HasPlainFloats) ∧
    c.same c = (everything c).sameWire (everything c) ∧
      (everything c).sameWire (everything c) = true ∧
      c.same c' = (everything c).sameWire (everything c') ∧
      ((everything c).sameWire (everything c') = true ↔ everything c = everything c') := by
  intro r c c'
  have encodes (x : Binary32) : (everything
      { fFloat := ⟨0x3F800000⟩, fRef := some (.rpcResult ⟨x⟩) }).Encodes := by
    refine encodes_iff_lengths.2 ?_
    simp [lengths, lengthsOf, lengthsOfEach]
  have known (x : Binary32) : (everything
      { fFloat := ⟨0x3F800000⟩, fRef := some (.rpcResult ⟨x⟩) }).KnownTo r := by
    intro q hq
    rcases hq.cases_head with rfl | ⟨s, hs, hq⟩
    · rfl
    · obtain rfl : s = .rpcResult ⟨x⟩ := by simpa [mem_references, eq_comm] using hs
      rcases hq.cases_head with rfl | ⟨u, hu, -⟩
      · rfl
      · cases hu
  have zero : (⟨0⟩ : Binary64).IsPlain := by decide
  have one : (⟨0x3F800000⟩ : Binary32).IsPlain := by decide
  have plain (x : Binary32) : Everything.HasPlainFloats
      { fFloat := ⟨0x3F800000⟩, fRef := some (.rpcResult ⟨x⟩) } :=
    ⟨by simp, by simp, zero, one⟩
  have hr : r.Built := .ofTypes _
  obtain ⟨equivalence, hsound⟩ := sameWire_sound
  obtain ⟨hwire, hfields⟩ := hsound r hr
  exact ⟨⟨hr, ⟨encodes _, encodes _⟩, ⟨known _, known _⟩, plain _, plain _⟩,
    hfields c c (encodes _) (encodes _) (known _) (known _) (plain _) (plain _),
    equivalence.refl ⟨_, encodes _⟩,
    hfields c c' (encodes _) (encodes _) (known _) (known _) (plain _) (plain _),
    hwire _ _ (encodes _) (encodes _) (known _) (known _)⟩

end Packet
end PacketRpc
