import PacketRpc.Proofs.Stream.Decoder

/-!
# What a stream holds

`Envelope.items` takes a stream apart: packets and reserved hashes one behind the other, until
something follows that is neither, or that has not come to its end. What comes more of the stream
only goes on there (`Envelope.items_append`), so an item that has begun is part of the one that
comes of it (`Envelope.exists_size_le`).
-/

namespace PacketRpc

/-! ## Items -/

/-- What can stand at the front of a stream. -/
inductive Item
  /-- A packet, and how many bytes it takes. -/
  | packet (p : Packet) (size : Nat)
  /-- The reserved hash. -/
  | null
  /-- Bytes that cannot be read for a reason, and after how many of them that shows. -/
  | undecodable (e : ProtocolError) (size : Nat)
  /-- The beginning of an item, of which no more has come. -/
  | unfinished (rest : List UInt8)

namespace Item

/-- How many bytes have to wait until the item can be told. -/
def size : Item → Nat
  | packet _ n | undecodable _ n => n
  | null => headerSize
  | unfinished rest => rest.length

/-- What a decoder gives for the item. -/
def outcome? : Item → Option (Except ProtocolError Packet)
  | packet p _ => some (.ok p)
  | null => some (.error .nullPacket)
  | undecodable e _ => some (.error e)
  | unfinished _ => none

/-- How many bytes further on the next item stands, if there is one. -/
def skip? : Item → Option Nat
  | packet _ n => some n
  | null => some headerSize
  | undecodable .. | unfinished _ => none

/-- What is left to read for want of more. -/
def unread? : Item → Option (List UInt8)
  | unfinished rest => some rest
  | packet .. | null | undecodable .. => none

/-- The item at the front. -/
def first (r : Registry) (bs : List UInt8) : Item :=
  match Envelope.read r (.start bs) with
  | (.ok (some p), t) => .packet p t.position
  | (.ok none, _) => .null
  | (.error e, t) => if e.isIncomplete then .unfinished bs else .undecodable e t.position

section
variable {r : Registry} {cs : List UInt8} (rest : List UInt8)

theorem first_of_packet {p : Packet} (hy : Yields (Envelope.read r) cs (.ok (some p))) :
    first r (cs ++ rest) = .packet p cs.length := by
  simp only [first, Envelope.read_start hy]

theorem first_of_null (hy : Yields (Envelope.read r) cs (.ok none)) :
    first r (cs ++ rest) = .null := by
  simp only [first, Envelope.read_start hy]

theorem first_of_undecodable {e : ProtocolError} (hy : Yields (Envelope.read r) cs (.error e))
    (he : e.isIncomplete = false) : first r (cs ++ rest) = .undecodable e cs.length := by
  simp [first, Envelope.read_start hy, he]

theorem first_of_short {bs : List UInt8} (hs : Short (Envelope.read r (.start bs)).1) :
    first r bs = .unfinished bs := by
  rcases hx : Envelope.read r (.start bs) with ⟨o, t⟩
  rw [hx] at hs
  obtain ⟨needed, remaining, rfl⟩ := hs
  simp [first, hx, ProtocolError.isIncomplete]

end

/-- The next item stands behind the front. -/
theorem length_drop_lt {r : Registry} {bs : List UInt8} {n : Nat}
    (h : (first r bs).skip? = some n) : (bs.drop n).length < bs.length := by
  have pos : 0 < headerSize := by decide
  induction bs using Envelope.induct_stream r with
  | packet cs p rest hy _ =>
    have hc := Envelope.headerSize_le hy (not_short_ok _)
    rw [first_of_packet rest hy] at h
    obtain rfl := Option.some.inj h
    simp only [List.drop_left, List.length_append]
    omega
  | null cs rest hy _ =>
    have hc := Envelope.length_of_null hy
    rw [first_of_null rest hy] at h
    obtain rfl := Option.some.inj h
    simp only [List.length_drop, List.length_append]
    omega
  | undecodable cs e rest hy he =>
    rw [first_of_undecodable rest hy he] at h
    cases h
  | unfinished bs hs =>
    rw [first_of_short hs] at h
    cases h

end Item

/-- **The items of a stream**, as far as it can be read. -/
def Envelope.items (r : Registry) (bs : List UInt8) : List Item :=
  match _ : (Item.first r bs).skip? with
  | some n => Item.first r bs :: items r (bs.drop n)
  | none => [Item.first r bs]
termination_by bs.length
decreasing_by exact Item.length_drop_lt ‹_›

namespace Envelope

section
variable {r : Registry} {cs bs : List UInt8} {i : Item}

theorem items_of_skip {n : Nat} (h : Item.first r bs = i) (hn : i.skip? = some n) :
    items r bs = i :: items r (bs.drop n) := by
  subst h
  rw [items]
  split <;> simp_all

theorem items_of_stop (h : Item.first r bs = i) (hn : i.skip? = none) : items r bs = [i] := by
  subst h
  rw [items]
  split <;> simp_all

variable (rest : List UInt8)

theorem items_of_packet {p : Packet} (hy : Yields (read r) cs (.ok (some p))) :
    items r (cs ++ rest) = .packet p cs.length :: items r rest := by
  rw [items_of_skip (Item.first_of_packet rest hy) rfl, List.drop_left]

theorem items_of_null (hy : Yields (read r) cs (.ok none)) :
    items r (cs ++ rest) = .null :: items r rest := by
  rw [items_of_skip (Item.first_of_null rest hy) rfl, ← length_of_null hy, List.drop_left]

theorem items_of_undecodable {e : ProtocolError} (hy : Yields (read r) cs (.error e))
    (he : e.isIncomplete = false) : items r (cs ++ rest) = [.undecodable e cs.length] :=
  items_of_stop (Item.first_of_undecodable rest hy he) rfl

theorem items_of_short (hs : Short (read r (.start bs)).1) : items r bs = [.unfinished bs] :=
  items_of_stop (Item.first_of_short hs) rfl

end

variable (r : Registry) (bs more : List UInt8)

/-- **What has come more of** only goes on where the items end: with what was unread. -/
theorem items_append :
    (∃ is u, items r bs = is ++ [.unfinished u] ∧ (∀ i ∈ is, i.unread? = none) ∧
      Short (read r (.start u)).1 ∧ items r (bs ++ more) = is ++ items r (u ++ more)) ∨
    ((∀ i ∈ items r bs, i.unread? = none) ∧ items r (bs ++ more) = items r bs) := by
  induction bs using induct_stream r with
  | packet cs p rest hy ih =>
    rw [List.append_assoc, items_of_packet _ hy, items_of_packet _ hy]
    obtain ⟨is, u, h, hn, hs, ha⟩ | ⟨hn, ha⟩ := ih
    · refine .inl ⟨.packet p cs.length :: is, u, by simp [h], ?_, hs, by simp [ha]⟩
      simpa [Item.unread?] using hn
    · exact .inr ⟨by simpa [Item.unread?] using hn, by rw [ha]⟩
  | null cs rest hy ih =>
    rw [List.append_assoc, items_of_null _ hy, items_of_null _ hy]
    obtain ⟨is, u, h, hn, hs, ha⟩ | ⟨hn, ha⟩ := ih
    · refine .inl ⟨.null :: is, u, by simp [h], ?_, hs, by simp [ha]⟩
      simpa [Item.unread?] using hn
    · exact .inr ⟨by simpa [Item.unread?] using hn, by rw [ha]⟩
  | undecodable cs e rest hy he =>
    rw [List.append_assoc, items_of_undecodable _ hy he, items_of_undecodable _ hy he]
    exact .inr ⟨by simp [Item.unread?], rfl⟩
  | unfinished bs hs =>
    exact .inl ⟨[], bs, by simp [items_of_short hs], by simp, hs, rfl⟩

/-- A beginning is a part of the first item that comes of it. -/
theorem exists_length_le {bs : List UInt8} (hs : Short (read r (.start bs)).1) :
    ∃ i ∈ items r (bs ++ more), bs.length ≤ i.size := by
  have part : ∀ {cs rest o}, bs ++ more = cs ++ rest → Yields (read r) cs o → ¬ Short o →
      bs.length < cs.length := fun {cs rest o} he hy ho => hy.lt_of_short ho hs he.symm
  induction h : bs ++ more using induct_stream r with
  | packet cs p rest hy _ =>
    rw [items_of_packet _ hy]
    exact ⟨_, .head _, Nat.le_of_lt (part h hy (not_short_ok _))⟩
  | null cs rest hy _ =>
    rw [items_of_null _ hy]
    refine ⟨_, .head _, ?_⟩
    rw [Item.size, ← length_of_null hy]
    exact Nat.le_of_lt (part h hy (not_short_ok _))
  | undecodable cs e rest hy he =>
    rw [items_of_undecodable _ hy he]
    refine ⟨_, .head _, Nat.le_of_lt (part h hy fun k => ?_)⟩
    rw [short_error_iff, he] at k
    cases k
  | unfinished bs' hs' =>
    rw [items_of_short hs', ← h]
    exact ⟨_, .head _, by simp [Item.size]⟩

/-- Items only grow with what comes more. -/
theorem exists_size_le {i : Item} (hi : i ∈ items r bs) :
    ∃ j ∈ items r (bs ++ more), i.size ≤ j.size := by
  obtain ⟨is, u, h, -, hs, ha⟩ | ⟨-, ha⟩ := items_append r bs more
  · rw [h, List.mem_append, List.mem_singleton] at hi
    rw [ha]
    obtain hi | rfl := hi
    · exact ⟨i, List.mem_append_left _ hi, Nat.le_refl _⟩
    · obtain ⟨j, hj, hl⟩ := exists_length_le r more hs
      exact ⟨j, List.mem_append_right _ hj, hl⟩
  · exact ⟨i, ha ▸ hi, Nat.le_refl _⟩

end Envelope
end PacketRpc
