import PacketRpc.Envelope
import PacketRpc.Proofs.Codec.RoundTrip

/-!
# Reading packets

Bodies are read by composed reads (`composed_body`). A bound on how deep references may nest changes
nothing once the input is too short to reach it (`readReferenceWithin_eq`), so reading a reference
is reading a hash and then the body behind it, within which references are read in the same way
(`readReference_eq`), and it is regular (`regular_reference`).

`Envelope.read_self_delimiting` is what this means for a packet on its own: its outcome stands as
soon as it is not short, and a packet ends in one place only.
-/

namespace PacketRpc

/-! ## Bodies -/

theorem composed_inner {γ : Type} : Composed fun _ : Read γ => DemoInner.read :=
  .map .int32 _

theorem composed_body (t : PacketType) :
    Composed fun reference => Packet.readBody reference t := by
  cases t with
  | primitives =>
    exact .bind .bool fun _ => .bind .scalar fun _ => .bind .scalar fun _ => .map .scalar _
  | everything =>
    exact .bind .flags fun _ => .bind .scalars fun _ => .bind .members fun _ =>
      .bind .scalars fun _ => .bind .scalars fun _ => .bind composed_inner.sequence fun _ =>
      .bind .scalars fun _ => .bind .scalars fun _ => .bind (.sequence .given) fun _ =>
      .bind .scalars fun _ => .bind .scalars fun _ => .bind .scalars fun _ =>
      .bind .scalars fun _ => .bind .members fun _ => .bind .bool fun _ => .bind .scalar fun _ =>
      .bind .member fun _ => .bind .scalar fun _ => .bind .scalar fun _ =>
      .bind composed_inner fun _ => .bind .scalar fun _ => .bind .scalar fun _ =>
      .bind .given fun _ => .bind .scalar fun _ => .bind .scalar fun _ => .bind .scalar fun _ =>
      .bind .scalar fun _ => .map .member _
  | calcMean => exact .bind .member fun _ => .map .scalars _
  | demoInner => exact .map composed_inner _
  | calcSum => exact .map .scalars _
  | ping => exact .done _
  | impostor | rpcResult | rpcError | echo | clientEcho | unhandled | nullHash =>
    exact .map .scalar _

namespace Registry

variable {r : Registry}

/-! ## Hashes -/

section
variable {body other : PacketType → Read Packet} {s : Reader}

theorem readHeaded_of_lt (h : s.remaining < headerSize) :
    r.readHeaded body s = (.error (.short headerSize s.remaining), s) :=
  Step.bind_of_error (Step.bind_of_error (Step.bind_of_error (Read.bytes_of_lt h) _) _) _

theorem readHeaded_of_le (h : headerSize ≤ s.remaining) :
    r.readHeaded body s =
      let hash := PacketHash.ofBytes (s.rest.take headerSize)
      if hash.isNull then (.ok none, s.skip headerSize)
      else match r.typeOf? hash with
        | none => (.error (.unknownHash hash), s.skip headerSize)
        | some t => (body t >>= fun p => pure (some p)) (s.skip headerSize) := by
  have h64 : Read.int64 s = (.ok (PacketHash.ofBytes (s.rest.take headerSize)).value,
      s.skip headerSize) :=
    Step.bind_of_ok (Step.bind_of_ok (Read.bytes_of_le h) _) _
  rw [readHeaded, Step.bind_of_ok h64]
  simp only
  split
  · rfl
  · cases r.typeOf? (PacketHash.ofBytes (s.rest.take headerSize)) <;> rfl

/-- Behind the hash eight bytes fewer remain. -/
theorem readHeaded_congr
    (h : ∀ t u, u.remaining + headerSize ≤ s.remaining → body t u = other t u) :
    r.readHeaded body s = r.readHeaded other s := by
  rcases Nat.lt_or_ge s.remaining headerSize with hl | hl
  · rw [readHeaded_of_lt hl, readHeaded_of_lt hl]
  · rw [readHeaded_of_le hl, readHeaded_of_le hl]
    have hs : (s.skip headerSize).remaining + headerSize ≤ s.remaining := by
      have : (s.skip headerSize).remaining = s.remaining - headerSize := List.length_drop
      omega
    simp only [Step.bind_apply, h _ _ hs]

end

theorem composed_headed {γ : Type} {body : PacketType → Read γ → Read Packet}
    (h : ∀ t, Composed (body t)) :
    Composed fun reference => r.readHeaded fun t => body t reference := by
  refine .bind .int64 fun v => ?_
  simp only
  split
  · exact .done none
  · split
    · exact .fail rfl
    · exact (h _).map some

/-! ## References -/

theorem regular_within (d : Nat) : Regular (r.readReferenceWithin d) := by
  induction d with
  | zero => exact (composed_headed fun _ => .given).regular (.fail .nullPacket)
  | succ d ih => exact (composed_headed composed_body).regular ih

/-- **More depth changes nothing** where the input is too short for what there is of it. -/
theorem readReferenceWithin_eq {d k : Nat} {s : Reader} (hs : s.remaining < headerSize * (d + 1))
    (hk : d ≤ k) : r.readReferenceWithin k s = r.readReferenceWithin d s := by
  induction d generalizing k s with
  | zero =>
    cases k with
    | zero => rfl
    | succ k => exact (readHeaded_of_lt (by omega)).trans (readHeaded_of_lt (by omega)).symm
  | succ d ih =>
    obtain ⟨k, rfl⟩ : ∃ l, k = l + 1 := ⟨k - 1, by omega⟩
    refine readHeaded_congr fun t u hu => ?_
    refine (composed_body t).congr (regular_within k) (k := u.remaining) (fun v hv => ?_) u
      (Nat.le_refl _)
    exact ih (by rw [Nat.mul_succ] at hs; omega) (by omega)

theorem readReference_of_le {d : Nat} {s : Reader} (h : s.remaining / headerSize ≤ d) :
    r.readReference s = r.readReferenceWithin d s :=
  (readReferenceWithin_eq (Nat.lt_mul_div_succ _ (by decide)) h).symm

/-- A reference is a hash and the body behind it, within which references are read likewise. -/
theorem readReference_eq : r.readReference = r.readHeaded (Packet.readBody r.readReference) := by
  funext s
  rw [readReference_of_le (Nat.le_succ (s.remaining / headerSize))]
  refine readHeaded_congr fun t u hu => ?_
  refine (composed_body t).congr (regular_within _) (k := u.remaining) (fun v hv => ?_) u
    (Nat.le_refl _)
  exact (readReference_of_le (Nat.div_le_div_right (by omega))).symm

theorem regular_reference : Regular r.readReference := by
  constructor
  · intro s o t h
    rw [readReference_of_le (Nat.le_refl _)] at h
    exact (regular_within _).spans h
  · intro s o t h ho
    -- the bytes that the run has passed do not depend on the depth, so any input has enough of it
    have key : ∀ d, s.remaining / headerSize ≤ d →
        ∃ bs, s.Spans bs t ∧ Yields (r.readReferenceWithin d) bs o := fun d hd =>
      (regular_within d).yields (by rw [← readReference_of_le hd, h]) ho
    obtain ⟨bs, hb, -⟩ := key _ (Nat.le_refl _)
    refine ⟨bs, hb, fun n rest => ?_⟩
    let d := max (s.remaining / headerSize) ((Reader.mk n (bs ++ rest)).remaining / headerSize)
    obtain ⟨cs, hc, hy⟩ := key d (Nat.le_max_left _ _)
    obtain rfl : bs = cs := List.append_cancel_right (hb.rest.symm.trans hc.rest)
    rw [readReference_of_le (Nat.le_max_right _ _)]
    exact hy n rest

/-- A read that fails does so with an error of reading, and never for want of depth. -/
theorem ofReading_of_reference {s t : Reader} {e : ProtocolError}
    (h : r.readReference s = (.error e, t)) : e.ofReading = true := by
  induction hn : s.remaining using Nat.strongRecOn generalizing s t e with
  | ind n ih =>
    rw [readReference_eq] at h
    rcases Nat.lt_or_ge s.remaining headerSize with hl | hl
    · rw [readHeaded_of_lt hl] at h
      cases h
      rfl
    · have hs : (s.skip headerSize).remaining < n := by
        have : (s.skip headerSize).remaining = s.remaining - headerSize := List.length_drop
        have : 0 < headerSize := by decide
        omega
      rw [readHeaded_of_le hl] at h
      simp only at h
      split at h
      · cases h
      · split at h
        · cases h
          rfl
        · exact ((composed_body _).map some).ofReading_of_error regular_reference
            (fun {v _ _} hv h => ih v.remaining (by omega) h rfl) (Nat.le_refl _) h

end Registry

/-! ## Envelopes -/

namespace Envelope

variable {r : Registry}

theorem regular_read : Regular (read r) := Registry.regular_reference

theorem read_eq : read r = r.readHeaded (Packet.readBody r.readReference) :=
  Registry.readReference_eq

theorem short_of_lt {s : Reader} (h : s.remaining < headerSize) : Short (read r s).1 := by
  rw [read_eq, Registry.readHeaded_of_lt h]
  exact ⟨_, _, rfl⟩

/-- **An envelope delimits itself.** An outcome that is not short stands, with the reader where it
is, whatever follows; so a packet or the reserved hash that takes `n` bytes is not found in fewer of
them, nor is anything else but that they are too few. -/
theorem read_self_delimiting (r : Registry) (d : List UInt8) :
    (∀ s, (∀ needed remaining, (read r (.start d)).1 ≠ .error (.short needed remaining)) →
      read r (.start (d ++ s)) =
        ((read r (.start d)).1,
          ⟨(read r (.start d)).2.position, (read r (.start d)).2.rest ++ s⟩)) ∧
    ∀ p t, read r (.start d) = (.ok p, t) → ∀ k < t.position,
      ∃ needed remaining, (read r (.start (d.take k))).1 = .error (.short needed remaining) := by
  refine ⟨fun s h => ?_, fun p t h k hk => ?_⟩
  · exact regular_read.run_append rfl (fun ⟨m, l, hs⟩ => h m l hs) s
  · obtain ⟨bs, hb, hy⟩ := regular_read.yields h (not_short_ok p)
    have hp : t.position = bs.length := hb.position.trans (Nat.zero_add _)
    refine regular_read.short_of_lt hy (r := t.rest) (u := d.drop k) ?_ ?_ 0
    · rw [List.take_append_drop]
      exact hb.rest.symm
    · have := List.length_take_le k d
      omega

/-- A request for a sum of one value, with a byte behind it: five more bytes change nothing, and
none of its thirteen can be spared. -/
theorem read_self_delimiting_sum :
    let r := Registry.ofTypes [.calcSum]
    let d := [0x0C, 0x9D, 0xFE, 0xA2, 0xF0, 0xEB, 0xD9, 0x18, 1, 0x3F, 0x80, 0, 0, 7]
    read r (.start d) = (.ok (some (.calcSum ⟨[⟨0x3F800000⟩]⟩)), ⟨13, [7]⟩) ∧
    read r (.start (d ++ [1, 2, 3, 4, 5])) =
      (.ok (some (.calcSum ⟨[⟨0x3F800000⟩]⟩)), ⟨13, [7, 1, 2, 3, 4, 5]⟩) ∧
    ∀ k < 13, ∃ needed remaining,
      (read r (.start (d.take k))).1 = .error (.short needed remaining) := by
  intro r d
  have h : read r (.start d) = (.ok (some (.calcSum ⟨[⟨0x3F800000⟩]⟩)), ⟨13, [7]⟩) := by
    rw [read_eq, Registry.readHeaded_of_le (by decide)]
    rfl
  have hd := read_self_delimiting r d
  refine ⟨h, ?_, hd.2 _ _ h⟩
  rw [hd.1 _ (by simp [h]), h]
  rfl

end Envelope
end PacketRpc
