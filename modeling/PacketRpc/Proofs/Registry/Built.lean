import PacketRpc.Registry

/-!
# Registries built by registering

`Registry.Built r`: `r` comes about from the empty registry by registering packet types, where those
that are refused leave it as it is. In such a registry every type stands under its own hash, and
none under the reserved one (`Built.keyed`).
-/

namespace PacketRpc.Registry

/-- Comes about by registering packet types. -/
inductive Built : Registry → Prop
  | empty : Built .empty
  | register {r r' : Registry} {t : PacketType} : Built r → r.register t = .ok r' → Built r'

/-- Every type stands under its own hash, which is not the reserved one. -/
def Keyed (r : Registry) : Prop := ∀ e ∈ r.entries, e.1 = e.2.hash ∧ e.1.isNull = false

/-- What a registration that succeeds does: nothing for a type that is there, and else it puts the
type under its hash. -/
theorem register_eq_ok {r r' : Registry} {t : PacketType} (h : r.register t = .ok r') :
    t.hash.isNull = false ∧ ((r.typeOf? t.hash = some t ∧ r' = r) ∨
      (r.typeOf? t.hash = none ∧ r' = ⟨insertEntry t.hash t r.entries⟩)) := by
  unfold register at h
  split at h
  · cases h
  · next hn =>
    refine ⟨by simpa using hn, ?_⟩
    split at h
    · next hl =>
      cases h
      exact .inr ⟨hl, rfl⟩
    · next other hl =>
      split at h
      · next ho =>
        cases h
        exact .inl ⟨ho ▸ hl, rfl⟩
      · cases h

theorem mem_insertEntry {h : PacketHash} {t : PacketType} {es : List (PacketHash × PacketType)}
    {e : PacketHash × PacketType} : e ∈ insertEntry h t es ↔ e = (h, t) ∨ e ∈ es := by
  induction es with
  | nil => simp [insertEntry]
  | cons f es ih =>
    unfold insertEntry
    split
    · simp
    · simp only [List.mem_cons, ih]
      exact or_left_comm

theorem Built.keyed {r : Registry} (h : Built r) : Keyed r := by
  induction h with
  | empty => exact fun e he => nomatch he
  | register _ hr ih =>
    obtain ⟨hn, ⟨-, rfl⟩ | ⟨-, rfl⟩⟩ := register_eq_ok hr
    · exact ih
    · intro e he
      obtain rfl | he := mem_insertEntry.1 he
      · exact ⟨rfl, hn⟩
      · exact ih e he

theorem mem_of_typeOf? {r : Registry} {h : PacketHash} {t : PacketType}
    (ht : r.typeOf? h = some t) : (h, t) ∈ r.entries := by
  obtain ⟨es, fs, he, -⟩ := List.lookup_eq_some_iff.1 ht
  rw [he]
  exact List.mem_append_right es List.mem_cons_self

/-- A type that is found has the hash under which it stands. -/
theorem Built.hash_of_typeOf? {r : Registry} (hr : Built r) {h : PacketHash} {t : PacketType}
    (ht : r.typeOf? h = some t) : t.hash = h ∧ h.isNull = false :=
  have hk := hr.keyed _ (mem_of_typeOf? ht)
  ⟨hk.1.symm, hk.2⟩

theorem Built.ofTypes (ts : List PacketType) : Built (ofTypes ts) := by
  suffices ∀ r, Built r → Built (ts.foldl (fun r t => (r.register t).toOption.getD r) r) from
    this .empty .empty
  induction ts with
  | nil => exact fun _ h => h
  | cons t ts ih =>
    intro r h
    refine ih _ ?_
    show Built ((r.register t).toOption.getD r)
    cases hr : r.register t with
    | error e => exact h
    | ok r' => exact h.register hr

end PacketRpc.Registry
