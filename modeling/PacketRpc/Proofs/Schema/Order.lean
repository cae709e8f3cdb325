import Mathlib.Data.List.Nodup
import Mathlib.Logic.Relation
import PacketRpc.Proofs.Schema.Shape
import PacketRpc.Text.Order

/-!
# The order of declarations

Wire order is settled by the names of fields where these are distinct (`inWireOrder_eq`), so it does
not count in which order they are declared. `FieldType.Reorders t u`: `u` is `t` with the fields
of one packet declared in another order, however deep that packet is embedded. A type in wire order
stays what it is when fields are declared anew (`FieldType.Reorders.sorted_eq`), in as many packets
as may be (`FieldType.sorted_eq_of_reordered`), and with it whatever depends on it alone: the
version string, the hash and the order in which each packet has its fields on the wire
(`PacketSchema.same_of_reordered`).
-/

namespace PacketRpc

/-! ## Wire order -/

section
variable {α β : Type} {fields ordered : List (String × α)}

/-- Only the names decide about the order. -/
theorem inWireOrder_map (f : α → β) (fields : List (String × α)) :
    inWireOrder (fields.map fun e => (e.1, f e.2)) =
      (inWireOrder fields).map fun e => (e.1, f e.2) := by
  symm
  exact List.map_mergeSort (f := fun e : String × α => (e.1, f e.2)) fun _ _ _ _ => rfl

/-- Names do not descend in wire order. -/
theorem pairwise_inWireOrder (fields : List (String × α)) :
    (inWireOrder fields).Pairwise fun f g => f.1 ≤ g.1 :=
  Text.pairwise_mergeSort Prod.fst fields

/-- Fields of distinct names have one order in which the names do not descend. -/
theorem eq_of_perm_of_ascending (hp : fields.Perm ordered) (hn : (ordered.map Prod.fst).Nodup)
    (hf : fields.Pairwise fun f g => f.1 ≤ g.1) (ho : ordered.Pairwise fun f g => f.1 ≤ g.1) :
    fields = ordered := by
  refine hp.eq_of_pairwise (fun f g hf hg hfg hgf => ?_) hf ho
  exact List.inj_on_of_nodup_map hn (hp.mem_iff.1 hf) hg (String.le_antisymm hfg hgf)

/-- Fields are put in wire order by any reordering in which their names ascend. -/
theorem inWireOrder_eq (hp : fields.Perm ordered)
    (ho : (ordered.map Prod.fst).IsChain (· < ·)) : inWireOrder fields = ordered := by
  have hn : (ordered.map Prod.fst).Pairwise (· < ·) := List.isChain_iff_pairwise.1 ho
  refine eq_of_perm_of_ascending ((inWireOrder_perm fields).trans hp) (hn.imp String.ne_of_lt)
    (pairwise_inWireOrder fields) ((List.pairwise_map.1 hn).imp fun h => ?_)
  exact String.not_lt.1 (String.lt_asymm h)

/-- In which order fields of distinct names are declared does not count. -/
theorem inWireOrder_eq_of_perm (hp : fields.Perm ordered) (hn : (fields.map Prod.fst).Nodup) :
    inWireOrder fields = inWireOrder ordered := by
  have hp' := (inWireOrder_perm fields).trans (hp.trans (inWireOrder_perm ordered).symm)
  refine eq_of_perm_of_ascending hp' ?_ (pairwise_inWireOrder _) (pairwise_inWireOrder _)
  exact ((hp'.symm.trans (inWireOrder_perm fields)).map Prod.fst).nodup_iff.2 hn

end

namespace FieldType

/-! ## Declaring anew -/

/-- The fields of one packet in the type are declared in another order. -/
inductive Reorders : FieldType → FieldType → Prop
  | fields {name : String} {fields fields' : List (String × FieldType)} (h : fields.Perm fields') :
    Reorders (embedded name fields) (embedded name fields')
  | inside {name field : String} {front back : List (String × FieldType)} {t u : FieldType}
    (h : Reorders t u) : Reorders (embedded name (front ++ (field, t) :: back))
      (embedded name (front ++ (field, u) :: back))
  | element {t u : FieldType} (h : Reorders t u) : Reorders (array t) (array u)

/-- The fields of each packet in the type have distinct names. -/
inductive Distinct : FieldType → Prop
  | word {t : FieldType} (h : Word t) : Distinct t
  | enumeration (e : EnumSchema) : Distinct (enumeration e)
  | embedded {name : String} {fields : List (String × FieldType)}
    (names : (fields.map Prod.fst).Nodup) (types : ∀ f ∈ fields, Distinct f.2) :
    Distinct (embedded name fields)
  | array {t : FieldType} (element : Distinct t) : Distinct (array t)

section
variable {t u : FieldType} {name : String} {fields : List (String × FieldType)}

theorem Distinct.of_embedded (h : Distinct (.embedded name fields)) :
    (fields.map Prod.fst).Nodup ∧ ∀ f ∈ fields, Distinct f.2 := by
  cases h with
  | word h => cases h
  | embedded names types => exact ⟨names, types⟩

theorem Distinct.of_array (h : Distinct (.array t)) : Distinct t := by
  cases h with
  | word h => cases h
  | array h => exact h

/-- Names stay distinct. -/
theorem Reorders.distinct (h : Reorders t u) (ht : t.Distinct) : u.Distinct := by
  induction h with
  | fields hp =>
    obtain ⟨names, types⟩ := ht.of_embedded
    exact .embedded ((hp.map Prod.fst).nodup_iff.1 names) fun f hf => types f (hp.mem_iff.2 hf)
  | @inside name field front back t u h ih =>
    obtain ⟨names, types⟩ := ht.of_embedded
    refine .embedded (by simpa using names) fun f hf => ?_
    rcases List.mem_append.1 hf with hf | hf
    · exact types f (List.mem_append_left _ hf)
    · rcases List.mem_cons.1 hf with rfl | hf
      · exact ih (types (field, t) (by simp))
      · exact types f (List.mem_append_right _ (List.mem_cons_of_mem _ hf))
  | element h ih => exact .array (ih ht.of_array)

/-- The type is the same in wire order. -/
theorem Reorders.sorted_eq (h : Reorders t u) (ht : t.Distinct) : t.sorted = u.sorted := by
  induction h with
  | @fields name fields fields' hp =>
    obtain ⟨names, -⟩ := ht.of_embedded
    rw [sorted, sorted, sortedEach_eq_map, sortedEach_eq_map, inWireOrder_map, inWireOrder_map,
      inWireOrder_eq_of_perm hp names]
  | @inside name field front back t u h ih =>
    obtain ⟨-, types⟩ := ht.of_embedded
    have htu : t.sorted = u.sorted := ih (types (field, t) (by simp))
    rw [sorted, sorted, sortedEach_eq_map, sortedEach_eq_map, List.map_append, List.map_append,
      List.map_cons, List.map_cons, htu]
  | element h ih => rw [sorted, sorted, ih ht.of_array]

/-- However many packets have their fields declared anew, in wire order the type is the same. -/
theorem sorted_eq_of_reordered (h : Relation.ReflTransGen Reorders t u) (ht : t.Distinct) :
    t.sorted = u.sorted := by
  suffices u.Distinct ∧ t.sorted = u.sorted from this.2
  induction h with
  | refl => exact ⟨ht, rfl⟩
  | tail _ h ih => exact ⟨h.distinct ih.1, ih.2.trans (h.sorted_eq ih.1)⟩

end

/-! ## Packets within packets -/

/-- The packet that a type embeds, alone or as the element of a sequence. -/
def packet? : FieldType → Option PacketSchema
  | embedded name fields => some ⟨name, fields⟩
  | array t => packet? t
  | _ => none

/-- What a type embeds in wire order is what it embeds, in wire order. -/
theorem packet?_sorted (t : FieldType) :
    t.sorted.packet?.map PacketSchema.embed = t.packet?.map fun s => s.embed.sorted := by
  induction t with
  | array t ih => exact ih
  | embedded name fields => simp [sorted, packet?, PacketSchema.embed]
  | _ => rfl

end FieldType

namespace PacketSchema

/-- The packet that the field of a name embeds. -/
def packetIn? (s : PacketSchema) (name : String) : Option PacketSchema :=
  (s.wireFields.lookup name).bind FieldType.packet?

/-- The packet to which the names of fields lead, one after another. -/
def packetAt? (s : PacketSchema) : (path : List String) → Option PacketSchema
  | [] => some s
  | name :: path => (s.packetIn? name).bind (packetAt? · path)

/-- The names of the fields in the order in which they are written. -/
def wireNames (s : PacketSchema) : List String := s.wireFields.map Prod.fst

variable {a b : PacketSchema}

theorem sorted_embed (s : PacketSchema) :
    s.embed.sorted = .embedded s.name (s.wireFields.map fun f => (f.1, f.2.sorted)) := by
  rw [embed, FieldType.sorted, FieldType.sortedEach_eq_map, inWireOrder_map, wireFields]

theorem lookup_map_snd {α β : Type} (f : α → β) (fields : List (String × α)) (name : String) :
    (fields.map fun e => (e.1, f e.2)).lookup name = (fields.lookup name).map f := by
  induction fields with
  | nil => rfl
  | cons e fields ih =>
    rw [List.map_cons, List.lookup_cons, List.lookup_cons, ih]
    split <;> rfl

theorem packetIn?_sorted (s : PacketSchema) (name : String) :
    (s.packetIn? name).map (fun p => p.embed.sorted) =
      ((s.wireFields.map fun f => (f.1, f.2.sorted)).lookup name).bind
        fun t => t.packet?.map embed := by
  rw [lookup_map_snd, packetIn?]
  cases s.wireFields.lookup name with
  | none => rfl
  | some t => exact t.packet?_sorted.symm

/-- Packets that are the same in wire order have the same names in every packet within them. -/
theorem wireNames_at_eq (h : a.embed.sorted = b.embed.sorted) (path : List String) :
    (a.packetAt? path).map wireNames = (b.packetAt? path).map wireNames := by
  induction path generalizing a b with
  | nil =>
    rw [sorted_embed, sorted_embed] at h
    have hn := congrArg (List.map Prod.fst) (FieldType.embedded.inj h).2
    rw [List.map_map, List.map_map] at hn
    exact congrArg some hn
  | cons name path ih =>
    rw [sorted_embed, sorted_embed] at h
    have hp : (a.packetIn? name).map (fun p => p.embed.sorted) =
        (b.packetIn? name).map fun p => p.embed.sorted := by
      rw [packetIn?_sorted, packetIn?_sorted, (FieldType.embedded.inj h).2]
    rw [packetAt?, packetAt?]
    generalize a.packetIn? name = x, b.packetIn? name = y at hp ⊢
    rcases x with _ | p <;> rcases y with _ | q
    · rfl
    · cases hp
    · cases hp
    · exact ih (Option.some.inj hp)

/-- **The order of declarations does not count.** Where names are distinct, packets that differ
only in the order in which the fields of packets in them are declared, at any depth, have the same
version string and the same hash, and each packet within them has its fields in the same order on
the wire. -/
theorem same_of_reordered (hd : a.embed.Distinct)
    (h : Relation.ReflTransGen FieldType.Reorders a.embed b.embed) :
    a.version = b.version ∧ a.hash = b.hash ∧
      ∀ path, (a.packetAt? path).map wireNames = (b.packetAt? path).map wireNames := by
  have hs := FieldType.sorted_eq_of_reordered h hd
  have hv : a.version = b.version := by
    rw [embed, embed, FieldType.sorted, FieldType.sorted] at hs
    obtain ⟨hn, hf⟩ := FieldType.embedded.inj hs
    rw [version, version, hn, hf]
  exact ⟨hv, by rw [hash, hash, hv], wireNames_at_eq hs⟩

/-- A packet with a sequence of packets in it, and both declared in another order. -/
theorem same_of_reordered_pair :
    let a : PacketSchema :=
      ⟨"Pair", [("zeta", .int), ("inner", .array (.embedded "Inner" [("b", .bool), ("a", .long)]))]⟩
    let b : PacketSchema :=
      ⟨"Pair", [("inner", .array (.embedded "Inner" [("a", .long), ("b", .bool)])), ("zeta", .int)]⟩
    (a.embed.Distinct ∧ Relation.ReflTransGen FieldType.Reorders a.embed b.embed) ∧
    a.version = b.version ∧ a.hash = b.hash ∧
      ∀ path, (a.packetAt? path).map wireNames = (b.packetAt? path).map wireNames := by
  intro a b
  have hd : a.embed.Distinct := by
    refine .embedded (by decide) (List.forall_mem_cons.2 ⟨.word .int, ?_⟩)
    refine List.forall_mem_singleton.2 (.array (.embedded (by decide) ?_))
    exact List.forall_mem_cons.2 ⟨.word .bool, List.forall_mem_singleton.2 (.word .long)⟩
  have inner : FieldType.Reorders a.embed (.embedded "Pair" [("zeta", .int),
      ("inner", .array (.embedded "Inner" [("a", .long), ("b", .bool)]))]) :=
    @FieldType.Reorders.inside _ _ [("zeta", .int)] [] _ _ (.element (.fields (.swap _ _ _)))
  have outer : FieldType.Reorders (.embedded "Pair" [("zeta", .int),
      ("inner", .array (.embedded "Inner" [("a", .long), ("b", .bool)]))]) b.embed :=
    .fields (.swap _ _ _)
  have h := (Relation.ReflTransGen.single inner).tail outer
  exact ⟨⟨hd, h⟩, same_of_reordered hd h⟩

end PacketSchema
end PacketRpc
