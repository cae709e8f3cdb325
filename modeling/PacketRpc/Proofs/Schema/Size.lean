import Mathlib.Algebra.GroupWithZero.Nat
import PacketRpc.Envelope
import PacketRpc.Proofs.Codec.RoundTrip
import PacketRpc.Proofs.Schema.Codec

/-!
# How many bytes fields take

`Sized w n`: the write `w` adds `n` bytes, once it succeeds. The type of a field says how many bytes
a value takes (`FieldType.size`), where a reference counts as no more than the hash that it begins
with. So what is written of a value has the size that its type gives it, and the bodies of the
packets that it refers to in addition (`FieldType.sized`).

What a value holds of one kind, in the order in which it is written, is collected by
`FieldValue.collect`: the packets that it refers to (`FieldValue.packets`), or the lengths that are
written of it (`FieldValue.lengths`).
-/

namespace PacketRpc

/-! ## Sizes of writes -/

/-- The write adds `n` bytes, if it succeeds. -/
def Sized (w : Write) (n : Nat) : Prop :=
  ∀ ⦃s t⦄, w s = (.ok (), t) → ∃ bs, t = s.append bs ∧ bs.length = n

/-- How many bytes a length takes. -/
def lengthSize (n : Nat) : Nat := if n < longLengthMark then 1 else 5

namespace Sized

variable {w v : Write} {m n : Nat}

theorem done : Sized (pure ()) 0 := by
  intro s t h
  cases h
  exact ⟨[], (Writer.append_nil s).symm, rfl⟩

theorem bytes (bs : List UInt8) : Sized (Write.bytes bs) bs.length := by
  intro s t h
  cases h
  exact ⟨bs, rfl, rfl⟩

theorem bind (h : Sized w m) (k : Sized v n) : Sized (w >>= fun _ => v) (m + n) := by
  intro s u hwv
  obtain ⟨⟨⟩, t, hw, hv⟩ := Step.bind_eq_ok hwv
  obtain ⟨bs, rfl, rfl⟩ := h hw
  obtain ⟨cs, rfl, rfl⟩ := k hv
  exact ⟨bs ++ cs, Writer.append_append s bs cs, List.length_append⟩

theorem word (width n : Nat) : Sized (Write.word width n) width := by
  have h := bytes (BigEndian.bytes width n)
  rwa [BigEndian.length_bytes] at h

theorem length (n : Nat) : Sized (Write.length n) (lengthSize n) := by
  unfold Write.length lengthSize
  split
  · exact word 1 n
  · split
    · have h := bytes (UInt8.ofNat longLengthMark :: BigEndian.bytes 4 n)
      rwa [List.length_cons, BigEndian.length_bytes] at h
    · intro s t h
      cases h

theorem text (s : String) : Sized (Write.text s) (lengthSize s.utf8ByteSize + s.utf8ByteSize) := by
  have h := bytes (Write.textBytes s)
  rw [Write.length_textBytes] at h
  exact (length _).bind h

theorem flags (bs : List Bool) :
    Sized (Write.flags bs) (lengthSize bs.length + Flags.byteCount bs.length) := by
  have h := bytes (Flags.pack bs)
  rw [Flags.pack, Flags.length_packInto] at h
  exact (length _).bind h

end Sized

/-! ## What a value holds -/

namespace FieldValue

/-- Induction over values, where the values of the fields of an embedded packet are its parts. -/
@[induction_eliminator]
theorem induct {P : FieldValue → Prop} (bool : ∀ v, P (bool v)) (byte : ∀ v, P (byte v))
    (ubyte : ∀ v, P (ubyte v)) (short : ∀ v, P (short v)) (ushort : ∀ v, P (ushort v))
    (int : ∀ v, P (int v)) (long : ∀ v, P (long v)) (float : ∀ v, P (float v))
    (double : ∀ v, P (double v)) (string : ∀ s, P (string s)) (packet : ∀ r, P (packet r))
    (member : ∀ o, P (member o))
    (embedded : ∀ fields, (∀ f ∈ fields, P f.2) → P (embedded fields))
    (array : ∀ vs, (∀ v ∈ vs, P v) → P (array vs)) (v : FieldValue) : P v := by
  refine @FieldValue.rec P (fun fields => ∀ f ∈ fields, P f.2) (fun vs => ∀ v ∈ vs, P v)
    (fun f => P f.2) bool byte ubyte short ushort int long float double string packet member
    embedded array (fun _ h => absurd h List.not_mem_nil) ?_
    (fun _ h => absurd h List.not_mem_nil) ?_ (fun _ _ h => h) v
  · intro f fields hf hfs g hg
    rcases List.mem_cons.1 hg with rfl | hg
    · exact hf
    · exact hfs g hg
  · intro v vs hv hvs u hu
    rcases List.mem_cons.1 hu with rfl | hu
    · exact hv
    · exact hvs u hu

section
variable {β : Type} (text : String → List β) (sequence : Nat → List β)
  (reference : Option Packet → List β)

mutual

/-- What is found in a value, in the order in which it is written: in its texts, its references and
the lengths of its sequences, each in front of the elements. -/
def collect : FieldValue → List β
  | .string s => text s
  | .packet r => reference r
  | .embedded fields => collectFields fields
  | .array vs => sequence vs.length ++ collectEach vs
  | _ => []

/-- What is found in the values of fields. -/
def collectFields : List (String × FieldValue) → List β
  | [] => []
  | (_, v) :: fields => collect v ++ collectFields fields

/-- What is found in values. -/
def collectEach : List FieldValue → List β
  | [] => []
  | v :: vs => collect v ++ collectEach vs

end
end

/-- The packets to which a value refers. -/
def packets : FieldValue → List Packet := collect (fun _ => []) (fun _ => []) Option.toList

/-- The lengths that are written of a value, where `reference` lists those of references. -/
def lengths (reference : Option Packet → List Nat) : FieldValue → List Nat :=
  collect (fun s => [s.utf8ByteSize]) (fun n => [n]) reference

section
variable {β : Type} {text : String → List β} {sequence : Nat → List β}
  {reference : Option Packet → List β}

theorem collectFields_eq (fields : List (String × FieldValue)) :
    collectFields text sequence reference fields =
      fields.flatMap fun f => f.2.collect text sequence reference := by
  induction fields with
  | nil => rw [collectFields, List.flatMap_nil]
  | cons f fields ih => rw [collectFields, ih, List.flatMap_cons]

theorem collectEach_eq (vs : List FieldValue) :
    collectEach text sequence reference vs = vs.flatMap (collect text sequence reference) := by
  induction vs with
  | nil => rw [collectEach, List.flatMap_nil]
  | cons v vs ih => rw [collectEach, ih, List.flatMap_cons]

end

theorem packets_embedded (fields : List (String × FieldValue)) :
    packets (.embedded fields) = fields.flatMap fun f => f.2.packets := by
  rw [packets, collect, collectFields_eq]

theorem packets_array (vs : List FieldValue) : packets (.array vs) = vs.flatMap packets := by
  rw [packets, collect, collectEach_eq, List.nil_append]

/-- What is found in parts either way is found so in the whole. -/
theorem mem_flatMap_or {α β : Type} {f g : α → List β} {h : α → List Packet} {P : Packet → Prop}
    {b : β} {as : List α} (hf : ∀ a ∈ as, b ∈ f a ↔ b ∈ g a ∨ ∃ p ∈ h a, P p) :
    b ∈ as.flatMap f ↔ b ∈ as.flatMap g ∨ ∃ p ∈ as.flatMap h, P p := by
  simp only [List.mem_flatMap]
  constructor
  · rintro ⟨a, ha, hb⟩
    rcases (hf a ha).1 hb with hb | ⟨p, hp, hb⟩
    · exact .inl ⟨a, ha, hb⟩
    · exact .inr ⟨p, ⟨a, ha, hp⟩, hb⟩
  · rintro (⟨a, ha, hb⟩ | ⟨p, ⟨a, ha, hp⟩, hb⟩)
    · exact ⟨a, ha, (hf a ha).2 (.inl hb)⟩
    · exact ⟨a, ha, (hf a ha).2 (.inr ⟨p, hp, hb⟩)⟩

/-- What is found in a value is found in it outside of its references, or in one of them. -/
theorem mem_collect {β : Type} {text : String → List β} {sequence : Nat → List β}
    {reference : Option Packet → List β} (hnone : reference none = []) {b : β} (v : FieldValue) :
    b ∈ v.collect text sequence reference ↔
      b ∈ v.collect text sequence (fun _ => []) ∨ ∃ p ∈ v.packets, b ∈ reference (some p) := by
  induction v with
  | packet r => cases r <;> simp [collect, packets, hnone]
  | embedded fields ih =>
    simp only [collect, packets_embedded, collectFields_eq]
    exact mem_flatMap_or ih
  | array vs ih =>
    simp only [collect, packets_array, collectEach_eq, List.mem_append]
    rw [mem_flatMap_or ih, or_assoc]
  | _ => simp [collect, packets]

end FieldValue

/-! ## Sizes of values -/

/-- The sizes of values in fields, each by the measure for its field, taken together. -/
def sizeFields (sizes : List (String × (FieldValue → Nat))) (fields : List (String × FieldValue)) :
    Nat :=
  (List.zipWith (fun size field => size.2 field.2) sizes fields).sum

namespace FieldType

mutual

/-- How many bytes a value takes as a type says, where a reference is the bare hash. -/
def size : FieldType → FieldValue → Nat
  | bool, _ | byte, _ | ubyte, _ => 1
  | short, _ | ushort, _ => 2
  | int, _ | float, _ => 4
  | long, _ | double, _ => 8
  | string, .string s => lengthSize s.utf8ByteSize + s.utf8ByteSize
  | packet, _ => headerSize
  | enumeration e, _ => e.width
  | embedded _ fields, .embedded values => sizeFields (inWireOrder (sizes fields)) values
  | array bool, .array vs => lengthSize vs.length + Flags.byteCount vs.length
  | array t, .array vs => lengthSize vs.length + (vs.map (size t)).sum
  | _, _ => 0

/-- The fields with the measures of their types. -/
def sizes : List (String × FieldType) → List (String × (FieldValue → Nat))
  | [] => []
  | (name, t) :: fields => (name, size t) :: sizes fields

end

theorem sizes_eq_map (fields : List (String × FieldType)) :
    sizes fields = fields.map fun f => (f.1, f.2.size) := by
  induction fields with
  | nil => rw [sizes, List.map_nil]
  | cons f fields ih => rw [sizes, ih, List.map_cons]

theorem size_array {t : FieldType} (ht : t ≠ bool) (vs : List FieldValue) :
    size (array t) (.array vs) = lengthSize vs.length + (vs.map (size t)).sum := by
  cases t
  case bool => exact absurd rfl ht
  all_goals rfl

end FieldType

/-- How many bytes the fields of a packet take, where references are bare hashes. -/
def PacketSchema.size (s : PacketSchema) (fields : List (String × FieldValue)) : Nat :=
  sizeFields (s.wireFields.map fun f => (f.1, f.2.size)) fields

/-! ## What is written has its size -/

section
variable {body : Packet → Nat}

/-- The bodies of the packets in the list have the given sizes. -/
def Bodies (body : Packet → Nat) (ps : List Packet) : Prop := ∀ p ∈ ps, Sized p.writeBody (body p)

theorem Bodies.of_append {ps qs : List Packet} (h : Bodies body (ps ++ qs)) :
    Bodies body ps ∧ Bodies body qs := List.forall_mem_append.1 h

/-- What is written of a value as the type says has the size that the type gives it, and that of
the bodies of the packets that it refers to. -/
def FieldType.IsSized (body : Packet → Nat) (t : FieldType) : Prop :=
  ∀ ⦃v w⦄, Bodies body v.packets → t.write? v = some w →
    Sized w (t.size v + (v.packets.map body).sum)

theorem sized_reference {r : Option Packet} (h : Bodies body r.toList) :
    Sized (Packet.writeReference r) (headerSize + (r.toList.map body).sum) := by
  cases r with
  | none =>
    rw [Packet.writeReference]
    exact Sized.word 8 _
  | some p =>
    rw [Packet.writeReference]
    exact (Sized.word 8 _).bind (h p (List.mem_singleton.2 rfl))

theorem sized_elements {t : FieldType} (ht : t.IsSized body) {vs : List FieldValue}
    {ws : List Write} (hb : Bodies body (vs.flatMap FieldValue.packets))
    (hw : vs.mapM t.write? = some ws) :
    ws.length = vs.length ∧ Sized (Step.forEach id ws)
      ((vs.map t.size).sum + ((vs.flatMap FieldValue.packets).map body).sum) := by
  induction vs generalizing ws with
  | nil =>
    cases hw
    exact ⟨rfl, .done⟩
  | cons v vs ih =>
    rw [List.mapM_cons] at hw
    obtain ⟨w, hv, hw⟩ := Option.bind_eq_some_iff.1 hw
    obtain ⟨ws', hws, hw⟩ := Option.bind_eq_some_iff.1 hw
    cases hw
    rw [List.flatMap_cons] at hb
    obtain ⟨hl, hs⟩ := ih hb.of_append.2 hws
    refine ⟨by rw [List.length_cons, hl, List.length_cons], ?_⟩
    have hcons := (ht hb.of_append.1 hv).bind hs
    rw [List.map_cons, List.sum_cons, List.flatMap_cons, List.map_append, List.sum_append]
    rwa [Nat.add_add_add_comm] at hcons

theorem sized_fields {ts : List (String × FieldType)} (ht : ∀ f ∈ ts, f.2.IsSized body)
    {fields : List (String × FieldValue)} {w : Write}
    (hb : Bodies body (fields.flatMap fun f => f.2.packets))
    (hw : writeFields? (ts.map fun f => (f.1, f.2.write?)) fields = some w) :
    Sized w (sizeFields (ts.map fun f => (f.1, f.2.size)) fields +
      ((fields.flatMap fun f => f.2.packets).map body).sum) := by
  induction ts generalizing fields w with
  | nil =>
    cases fields with
    | nil =>
      cases hw
      exact .done
    | cons f fields => cases hw
  | cons f ts ih =>
    cases fields with
    | nil => cases hw
    | cons g fields =>
      obtain ⟨name, t⟩ := f
      obtain ⟨name', v⟩ := g
      rw [List.map_cons, writeFields?] at hw
      split at hw
      · obtain ⟨w, hv, hw⟩ := Option.bind_eq_some_iff.1 hw
        obtain ⟨u, hu, hw⟩ := Option.bind_eq_some_iff.1 hw
        cases hw
        rw [List.flatMap_cons] at hb
        have hs := ih (fun f hf => ht f (List.mem_cons_of_mem _ hf)) hb.of_append.2 hu
        have hcons := (ht (name, t) List.mem_cons_self hb.of_append.1 hv).bind hs
        rw [Nat.add_add_add_comm] at hcons
        simpa [sizeFields, List.flatMap_cons] using hcons
      · cases hw

/-- Values that can be taken as booleans are booleans. -/
theorem eq_map_bool {vs : List FieldValue} {bs : List Bool}
    (h : vs.mapM (ofField? : FieldValue → Option Bool) = some bs) : vs = bs.map .bool := by
  induction vs generalizing bs with
  | nil =>
    cases h
    rfl
  | cons v vs ih =>
    rw [List.mapM_cons] at h
    obtain ⟨b, hv, h⟩ := Option.bind_eq_some_iff.1 h
    obtain ⟨bs', hbs, h⟩ := Option.bind_eq_some_iff.1 h
    cases h
    rw [ih hbs, List.map_cons]
    cases v <;> cases hv
    rfl

theorem sized_flags {vs : List FieldValue} {w : Write}
    (hw : (FieldType.array .bool).write? (.array vs) = some w) :
    Sized w ((FieldType.array .bool).size (.array vs) +
      ((FieldValue.array vs).packets.map body).sum) := by
  obtain ⟨bs, hb, rfl⟩ := Option.map_eq_some_iff.1 hw
  have hvs : vs = bs.map .bool := eq_map_bool hb
  have hp : (FieldValue.array vs).packets = [] := by
    rw [FieldValue.packets_array, hvs, List.flatMap_map]
    exact List.flatMap_eq_nil_iff.2 fun _ _ => rfl
  have hl : vs.length = bs.length := by rw [hvs, List.length_map]
  rw [hp, FieldType.size, hl]
  exact .flags bs

/-- **Every type gives values the size** that is written of them. -/
theorem FieldType.sized (t : FieldType) : t.IsSized body := by
  induction t with
  | array t ih =>
    intro v w hb hw
    cases v
    case array vs =>
      by_cases ht : t = bool
      · subst ht
        exact sized_flags hw
      · rw [FieldValue.packets_array] at hb ⊢
        rw [write?_array ht] at hw
        obtain ⟨ws, hws, rfl⟩ := Option.map_eq_some_iff.1 hw
        obtain ⟨hl, hs⟩ := sized_elements ih hb hws
        rw [size_array ht, Nat.add_assoc, ← hl]
        exact (Sized.length _).bind hs
    all_goals cases t <;> cases hw
  | embedded name fields ih =>
    intro v w hb hw
    cases v
    case embedded values =>
      rw [FieldValue.packets_embedded] at hb ⊢
      rw [write?, writers_eq_map, inWireOrder_map] at hw
      rw [size, sizes_eq_map, inWireOrder_map]
      exact sized_fields (fun f hf => ih f (mem_inWireOrder.1 hf)) hb hw
    all_goals cases hw
  | string =>
    intro v w _ hw
    cases v <;> cases hw
    exact .text _
  | packet =>
    intro v w hb hw
    cases v with
    | packet p =>
      rw [write?_packet] at hw
      cases hw
      exact sized_reference hb
    | _ => cases hw
  | _ =>
    intro v w _ hw
    cases v <;> cases hw
    all_goals exact Sized.word _ _

end
end PacketRpc
