import PacketRpc.Proofs.Registry.Built
import PacketRpc.Proofs.Registry.Table

/-!
# A registry answers as a table

A registry holds types of the known packets only, and in the order of their hashes. Apart from that
it is the table of the same history (`Registry.Renders`), and gives the same answers
(`Registry.mirrors_ofTypes`).
-/

namespace PacketRpc

instance : PacketFamily PacketType Packet where
  type := Packet.type
  blank := PacketType.blank
  name := Packet.name
  hash := Packet.hash
  type_blank t := by cases t <;> rfl
  hash_blank p := by cases p <;> rfl

namespace Registry

open PacketTable (hashOf entryOf after rows)

variable {r : Registry} {s : PacketTable PacketType Packet}

/-! ## Putting in order -/

theorem perm_insertEntry (h : PacketHash) (t : PacketType) (es : List (PacketHash × PacketType)) :
    (insertEntry h t es).Perm ((h, t) :: es) := by
  induction es with
  | nil => exact .refl _
  | cons e es ih =>
    unfold insertEntry
    split
    · exact .refl _
    · exact (ih.cons e).trans (.swap _ _ _)

/-- The hashes increase. -/
def Ascending (es : List (PacketHash × PacketType)) : Prop :=
  es.Pairwise fun a b => a.1.value.toInt < b.1.value.toInt

theorem Ascending.nodup {es : List (PacketHash × PacketType)} (h : Ascending es) :
    (es.map Prod.fst).Nodup := by
  refine List.pairwise_map.2 (h.imp fun hlt heq => ?_)
  rw [heq] at hlt
  exact Int.lt_irrefl _ hlt

theorem Ascending.insertEntry {es : List (PacketHash × PacketType)} (hs : Ascending es)
    {h : PacketHash} (hf : h ∉ es.map Prod.fst) (t : PacketType) :
    Ascending (insertEntry h t es) := by
  induction es with
  | nil => exact List.pairwise_singleton _ _
  | cons e es ih =>
    obtain ⟨he, hs'⟩ := List.pairwise_cons.1 hs
    rw [List.map_cons, List.mem_cons, not_or] at hf
    unfold Registry.insertEntry
    split
    · next hlt =>
      have hlt := Int64.lt_iff_toInt_lt.1 hlt
      refine List.pairwise_cons.2 ⟨List.forall_mem_cons.2 ⟨hlt, fun f hf => ?_⟩, hs⟩
      exact Int.lt_trans hlt (he f hf)
    · next hle =>
      have hlt : e.1.value.toInt < h.value.toInt := by
        rcases PacketTable.hash_trichotomy h e.1 with hlt | heq | hgt
        · exact absurd (Int64.lt_iff_toInt_lt.2 hlt) hle
        · exact absurd heq hf.1
        · exact hgt
      refine List.pairwise_cons.2 ⟨fun f hfm => ?_, ih hs' hf.2⟩
      obtain rfl | hfm := mem_insertEntry.1 hfm
      · exact hlt
      · exact he f hfm

/-! ## The same entries -/

/-- The registry holds the types of the table under their hashes, in ascending order. -/
structure Renders (r : Registry) (s : PacketTable PacketType Packet) : Prop where
  perm : r.entries.Perm (s.entries.map fun e => (e.1, e.2.type))
  ascending : Ascending r.entries
  keyed : s.Keyed

theorem Renders.typeOf?_eq (h : Renders r s) (k : PacketHash) :
    r.typeOf? k = (s.entryAt? k).map (·.type) := by
  refine Option.ext fun t => ?_
  rw [typeOf?, PacketTable.lookup_eq_some_iff h.ascending.nodup, h.perm.mem_iff, List.mem_map,
    Option.map_eq_some_iff]
  constructor
  · rintro ⟨⟨k', e⟩, he, heq⟩
    cases heq
    exact ⟨e, (PacketTable.lookup_eq_some_iff h.keyed.nodup).2 he, rfl⟩
  · rintro ⟨e, he, rfl⟩
    exact ⟨(k, e), (PacketTable.lookup_eq_some_iff h.keyed.nodup).1 he, rfl⟩

/-! ## The same registrations -/

theorem type_blank (t : PacketType) : t.blank.type = t := PacketFamily.type_blank t

theorem hashOf_eq (t : PacketType) : hashOf t = t.hash := congrArg PacketType.hash (type_blank t)

theorem name_blank (t : PacketType) : t.blank.name = t.name :=
  congrArg PacketType.name (type_blank t)

theorem Renders.name_eq (h : Renders r s) {k : PacketHash} {e : TableEntry PacketType Packet}
    (he : s.entryAt? k = some e) : e.name = e.type.name := by
  have hk := h.keyed.eq_entryOf _ ((PacketTable.lookup_eq_some_iff h.keyed.nodup).1 he)
  have hn : e.name = e.type.blank.name := congrArg (·.2.name) hk
  rw [hn, name_blank]

/-- A registration comes to the same in both. -/
theorem Renders.register (h : Renders r s) (t : PacketType) :
    (r.register t).map (fun _ => ()) = (s.register t).1 ∧
    Renders ((r.register t).toOption.getD r) (s.register t).2 := by
  have hty := h.typeOf?_eq t.hash
  have hk := h.keyed.register t
  rcases hs : s.register t with ⟨o, s'⟩
  rw [hs] at hk
  have hc := hs ▸ s.registration t
  rw [Registry.register]
  cases hc with
  | null hn =>
    rw [hashOf_eq] at hn
    rw [if_pos hn]
    exact ⟨rfl, h⟩
  | new hn hf =>
    rw [hashOf_eq] at hn hf
    rw [hf, Option.map_none] at hty
    rw [if_neg (Bool.eq_false_iff.1 hn), hty]
    refine ⟨rfl, ?_, h.ascending.insertEntry (fun hm => ?_) t, hk⟩
    · rw [List.map_cons, hashOf_eq]
      exact (perm_insertEntry _ _ _).trans (.cons _ h.perm)
    · obtain ⟨e, he, hh⟩ := List.mem_map.1 hm
      simpa [hh] using List.lookup_eq_none_iff.1 hty e he
  | again hn he ht =>
    rw [hashOf_eq] at hn he
    rw [he, Option.map_some, ht] at hty
    rw [if_neg (Bool.eq_false_iff.1 hn), hty]
    simp only [↓reduceIte]
    exact ⟨rfl, h⟩
  | @taken e hn he ht =>
    rw [hashOf_eq] at hn he
    rw [he, Option.map_some] at hty
    rw [if_neg (Bool.eq_false_iff.1 hn), hty, h.name_eq he]
    simp only [if_neg ht]
    refine ⟨?_, h⟩
    have hname : PacketFamily.name PacketType (PacketFamily.blank t) = t.name := name_blank t
    rw [hashOf_eq, hname]
    rfl

theorem ofTypes_append_singleton (ts : List PacketType) (t : PacketType) :
    ofTypes (ts ++ [t]) = ((ofTypes ts).register t).toOption.getD (ofTypes ts) := by
  rw [ofTypes, List.foldl_append]
  rfl

theorem renders_ofTypes (ts : List PacketType) : (ofTypes ts).Renders (after ts) := by
  induction ts using List.reverseRecOn with
  | nil => exact ⟨.nil, .nil, PacketTable.keyed_after []⟩
  | append_singleton ts t ih =>
    rw [ofTypes_append_singleton, PacketTable.after_append]
    exact (ih.register t).2

/-! ## The same answers -/

/-- A registry and a table answer every question alike. -/
structure Mirrors (r : Registry) (s : PacketTable PacketType Packet) : Prop where
  register : ∀ t, (r.register t).map (fun _ => ()) = (s.register t).1
  newInstance : ∀ h, r.newInstance h = s.newInstance h
  knows : ∀ p, r.knows p = s.knows p
  contains : ∀ h, r.contains h = s.contains h
  nameOf? : ∀ h, r.nameOf? h = s.nameOf? h
  size : r.size = s.size
  listing : r.listing = s.listing

theorem quoted_name (t : PacketType) : Text.quoted t.name = "\"" ++ t.name ++ "\"" := by
  cases t <;> decide +kernel

/-- The entries of the registry are the lines of the listing. -/
theorem Renders.rows_eq (h : Renders r s) :
    rows s.entries = r.entries.map fun e => (e.1, e.2.name) := by
  have hn : s.entries.map (fun e => (e.1, e.2.name)) =
      s.entries.map fun e => (e.1, e.2.type.name) := by
    refine List.map_congr_left fun e he => ?_
    rw [h.name_eq ((PacketTable.lookup_eq_some_iff h.keyed.nodup).2 he)]
  have hp : (r.entries.map fun e => (e.1, e.2.name)).Perm
      (s.entries.map fun e => (e.1, e.2.name)) := by
    rw [hn]
    have := h.perm.map fun e : PacketHash × PacketType => (e.1, e.2.name)
    rwa [List.map_map] at this
  exact (PacketTable.eq_rows h.keyed.nodup hp (List.pairwise_map.2 h.ascending)).symm

theorem Renders.mirrors (h : Renders r s) : Mirrors r s where
  register t := (h.register t).1
  newInstance k := by
    rw [Registry.newInstance, PacketTable.newInstance, h.typeOf?_eq]
    rcases he : s.entryAt? k with _ | e
    · rfl
    · have hk := h.keyed.eq_entryOf _ ((PacketTable.lookup_eq_some_iff h.keyed.nodup).1 he)
      have hm : e = entryOf e.type := congrArg Prod.snd hk
      rw [hm]
      rfl
  knows p := by
    rw [Registry.knows, h.typeOf?_eq]
    show _ = (s.entryAt? p.hash).any _
    cases s.entryAt? p.hash with
    | none => rfl
    | some e => rfl
  contains k := by
    rw [Registry.contains, h.typeOf?_eq, Option.isSome_map]
    rfl
  nameOf? k := by
    rw [Registry.nameOf?, h.typeOf?_eq, PacketTable.nameOf?]
    rcases he : s.entryAt? k with _ | e
    · rfl
    · exact congrArg some (h.name_eq he).symm
  size := by
    rw [Registry.size, h.perm.length_eq, List.length_map]
    rfl
  listing := by
    have hc : ": \"" = ": " ++ "\"" := rfl
    rw [Registry.listing, PacketTable.listing, h.rows_eq, List.map_map]
    simp only [Function.comp_def, quoted_name, hc, String.append_assoc]

/-- **Registrations are sound.** This holds of any packet types and of any history of registrations;
and the registry of the known packet types answers as the table of the same history. -/
theorem registrations_sound :
    (∀ (T P : Type) [DecidableEq T] [PacketFamily T P] (ts : List T), PacketTable.Outcome ts) ∧
    ∀ ts : List PacketType, (ofTypes ts).Mirrors (after ts) :=
  ⟨fun _ _ _ _ ts => PacketTable.outcome ts, fun ts => (renders_ofTypes ts).mirrors⟩

/-- The reserved hash is refused, and so is a second shape under the hash of the first. -/
example : PacketTable.accepted ({} : PacketTable PacketType Packet)
    [.nullHash, .echo, .demoInner, .impostor, .echo] = [.echo, .demoInner, .echo] := by decide

end Registry
end PacketRpc
