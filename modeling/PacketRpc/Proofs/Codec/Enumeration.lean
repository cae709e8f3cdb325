import PacketRpc.Proofs.Codec.RoundTrip
import PacketRpc.Proofs.Wire.Errors
import PacketRpc.Proofs.Wire.Length
import PacketRpc.Schema.Basic

/-!
# Enumerations of any size

An enumeration is exact when the ordinals below the number of its members are those of its members,
one each, and no other is read (`ExactEnumerated`). Its ordinals take as many bytes as the size of
the enumeration asks for (`Enumerated.width`). Reading one of them ends in one of three ways; a
sequence ends as its first ordinal without a member does, and without one it ends well or for lack
of bytes (`Enumerated.Ends`). `Enumerated.ordinals_exact` puts this together.
-/

namespace PacketRpc

variable {α : Type}

/-- An enumeration whose ordinals are just those below the number of its members. -/
class ExactEnumerated (α : Type) [Enumerated α] : Prop extends LawfulEnumerated α where
  map_ordinal : ∀ o : UInt16, (Enumerated.ofOrdinal? o : Option α).map Enumerated.ordinal =
    if o.toNat < Enumerated.memberCount α then some o else none

instance {name : String} {count : Nat} : ExactEnumerated (Ordinal name count) where
  map_ordinal o := by
    show Option.map _ (if o.toNat < count then some (⟨o⟩ : Ordinal name count) else none) = _
    split <;> simp_all [Enumerated.memberCount, Enumerated.ordinal]

namespace Enumerated

variable [Enumerated α]

/-! ## Codes -/

/-- The bytes of the ordinal of a value. -/
def code (a : α) : List UInt8 := BigEndian.bytes (width α) (ordinal a).toNat

/-- The ordinal at the front of the bytes. -/
def front (α : Type) [Enumerated α] (bs : List UInt8) : UInt16 :=
  UInt16.ofNat (BigEndian.value (bs.take (width α)))

theorem write_eq (a : α) (w : Writer) : write a w = (.ok (), w.append (code a)) :=
  congrFun (write_eq_word a) w

theorem code_of_small (h : memberCount α ≤ 255) {a : α} (ha : IsMember a) :
    ∃ b : UInt8, b.toNat = (ordinal a).toNat ∧ code a = [b] := by
  have hlt : (ordinal a).toNat < memberCount α := ha
  refine ⟨UInt8.ofNat (ordinal a).toNat, ?_, ?_⟩
  · rw [UInt8.toNat_ofNat', Nat.mod_eq_of_lt (by omega)]
  · rw [code, width, if_pos h, BigEndian.bytes_one]

theorem code_of_large (h : 256 ≤ memberCount α) (a : α) :
    ∃ high low : UInt8, 256 * high.toNat + low.toNat = (ordinal a).toNat ∧ code a = [high, low] := by
  have hlt := (ordinal a).toNat_lt
  refine ⟨UInt8.ofNat ((ordinal a).toNat / 256), UInt8.ofNat (ordinal a).toNat, ?_, ?_⟩
  · rw [UInt8.toNat_ofNat', UInt8.toNat_ofNat']
    omega
  · rw [code, width, if_neg (by omega)]
    simp [BigEndian.bytes, BigEndian.limit]

theorem forEach_write (as : List α) (w : Writer) :
    Step.forEach write as w = (.ok (), w.append (as.flatMap code)) := by
  induction as generalizing w with
  | nil =>
    rw [List.flatMap_nil, Writer.append_nil]
    rfl
  | cons a as ih =>
    rw [Step.forEach, Step.bind_of_ok (write_eq a w), ih, Writer.append_append, List.flatMap_cons]

/-! ## Reading an ordinal -/

theorem readOrdinal_of_lt {s : Reader} (h : s.remaining < width α) :
    readOrdinal α s = (.error (.short (width α) s.remaining), s) := by
  rw [readOrdinal_eq_word]
  exact Step.bind_of_error (Step.bind_of_error (Read.bytes_of_lt h) _) _

theorem readOrdinal_of_le {s : Reader} (h : width α ≤ s.remaining) :
    readOrdinal α s = (.ok (front α s.rest), s.skip (width α)) := by
  rw [readOrdinal_eq_word]
  exact Step.bind_of_ok (Step.bind_of_ok (Read.bytes_of_le h) _) _

theorem read_of_lt {s : Reader} (h : s.remaining < width α) :
    (read : Read α) s = (.error (.short (width α) s.remaining), s) :=
  Step.bind_of_error (readOrdinal_of_lt h) _

section
variable [ExactEnumerated α]

theorem ofOrdinal?_of_lt {o : UInt16} (h : o.toNat < memberCount α) :
    ∃ a : α, ofOrdinal? o = some a ∧ ordinal a = o := by
  have ho := ExactEnumerated.map_ordinal (α := α) o
  rw [if_pos h] at ho
  exact Option.map_eq_some_iff.1 ho

theorem ofOrdinal?_of_le {o : UInt16} (h : memberCount α ≤ o.toNat) :
    (ofOrdinal? o : Option α) = none := by
  have ho := ExactEnumerated.map_ordinal (α := α) o
  rw [if_neg (Nat.not_lt.2 h)] at ho
  exact Option.map_eq_none_iff.1 ho

theorem read_of_member {s : Reader} (h : width α ≤ s.remaining)
    (ho : (front α s.rest).toNat < memberCount α) :
    ∃ a : α, ordinal a = front α s.rest ∧ read s = (.ok a, s.skip (width α)) := by
  obtain ⟨a, ha, hao⟩ := ofOrdinal?_of_lt ho
  refine ⟨a, hao, ?_⟩
  rw [read, Step.bind_of_ok (readOrdinal_of_le h), ha]
  rfl

theorem read_of_bad {s : Reader} (h : width α ≤ s.remaining)
    (ho : memberCount α ≤ (front α s.rest).toNat) : (read : Read α) s =
      (.error (.badEnum (name α) (front α s.rest) (memberCount α)), s.skip (width α)) := by
  rw [read, Step.bind_of_ok (readOrdinal_of_le h), ofOrdinal?_of_le ho]
  rfl

end

/-! ## Reading a sequence of ordinals -/

/-- The ordinals that stand in the bytes one after another, up to `n` of them. -/
def ordinals (α : Type) [Enumerated α] : (n : Nat) → List UInt8 → List UInt16
  | 0, _ => []
  | n + 1, bs =>
    if width α ≤ bs.length then front α bs :: ordinals α n (bs.drop (width α)) else []

/-- The first of the ordinals that is that of no member. -/
def bad? (α : Type) [Enumerated α] (os : List UInt16) : Option UInt16 :=
  os.find? fun o => memberCount α ≤ o.toNat

/-- How a read of `n` members ends where the ordinals `os` are found. -/
inductive Ends (os : List UInt16) (n : Nat) : Except ProtocolError (List α) → Prop
  | bad {o : UInt16} (h : bad? α os = some o) :
    Ends os n (.error (.badEnum (name α) o (memberCount α)))
  | short {remaining : Nat} (h : bad? α os = none) (hn : os.length < n) :
    Ends os n (.error (.short (width α) remaining))
  | members {as : List α} (h : bad? α os = none) (hn : os.length = n)
    (ha : as.map ordinal = os) : Ends os n (.ok as)

theorem bad?_cons_of_lt {o : UInt16} (h : o.toNat < memberCount α) (os : List UInt16) :
    bad? α (o :: os) = bad? α os := by
  apply List.find?_cons_of_neg
  simpa using h

/-- A member in front changes nothing but the members that are given. -/
theorem Ends.cons {a : α} (h : IsMember a) {os : List UInt16} {n : Nat}
    {x : Except ProtocolError (List α)} (hx : Ends os n x) :
    Ends (ordinal a :: os) (n + 1) (x.map (a :: ·)) := by
  cases hx with
  | bad hb => exact .bad (by rwa [bad?_cons_of_lt h])
  | short hb hn => exact .short (by rwa [bad?_cons_of_lt h]) (Nat.succ_lt_succ hn)
  | members hb hn ha =>
    refine .members (by rwa [bad?_cons_of_lt h]) (congrArg Nat.succ hn) ?_
    rw [List.map_cons, ha]

theorem ends_repeated [ExactEnumerated α] (n : Nat) (s : Reader) :
    Ends (ordinals α n s.rest) n (Step.repeated n (read : Read α) s).1 := by
  induction n generalizing s with
  | zero => exact .members rfl rfl rfl
  | succ n ih =>
    rw [Step.repeated_succ, ordinals]
    rcases Nat.lt_or_ge s.remaining (width α) with hs | hs
    · have hn : ¬ width α ≤ s.rest.length := Nat.not_le.2 hs
      rw [if_neg hn, Step.bind_of_error (read_of_lt hs)]
      exact .short rfl (Nat.succ_pos n)
    · have hp : width α ≤ s.rest.length := hs
      rw [if_pos hp]
      rcases Nat.lt_or_ge (front α s.rest).toNat (memberCount α) with ho | ho
      · obtain ⟨a, ha, hr⟩ := read_of_member hs ho
        have hm : IsMember a := by rwa [IsMember, ha]
        have hc := (ih (s.skip (width α))).cons hm
        rw [Step.bind_of_ok hr, ← ha]
        rcases hrep : Step.repeated n (read : Read α) (s.skip (width α)) with ⟨e | as, t⟩
        · rw [Step.bind_of_error hrep]
          rwa [hrep] at hc
        · rw [Step.bind_of_ok hrep]
          rwa [hrep] at hc
      · rw [Step.bind_of_error (read_of_bad hs ho)]
        exact .bad (List.find?_cons_of_pos (by simpa using ho))

/-! ## Altogether -/

/-- What is written for members, and what is read from any bytes. -/
structure Exact (α : Type) [Enumerated α] : Prop where
  write_eq : ∀ (a : α) (w : Writer), write a w = (.ok (), w.append (code a))
  /-- Up to 255 members have ordinals of one byte, -/
  code_of_small : memberCount α ≤ 255 → ∀ a : α, IsMember a →
    ∃ b : UInt8, b.toNat = (ordinal a).toNat ∧ code a = [b]
  /-- more have ordinals of two, the high one first; -/
  code_of_large : 256 ≤ memberCount α → ∀ a : α, IsMember a → ∃ high low : UInt8,
    256 * high.toNat + low.toNat = (ordinal a).toNat ∧ code a = [high, low]
  /-- and so says a schema with as many members. -/
  isLarge_iff : ∀ e : EnumSchema, e.members.length = memberCount α →
    (e.isLarge = true ↔ 256 ≤ memberCount α)
  /-- Members are read back as they were written, whatever follows. -/
  read_write : ∀ as : List α, (∀ a ∈ as, IsMember a) → as.length ≤ maxLength →
    ∃ bs, bs = lengthBytes as.length ++ as.flatMap code ∧
      (∀ w, Write.members as w = (.ok (), w.append bs)) ∧
      ∀ position suffix, Read.members ⟨position, bs ++ suffix⟩ =
        (.ok as, ⟨position + bs.length, suffix⟩)
  read_short : ∀ s : Reader, s.remaining < width α →
    (read : Read α) s = (.error (.short (width α) s.remaining), s)
  read_member : ∀ s : Reader, width α ≤ s.remaining →
    (front α s.rest).toNat < memberCount α →
    ∃ a : α, ordinal a = front α s.rest ∧ read s = (.ok a, s.skip (width α))
  read_bad : ∀ s : Reader, width α ≤ s.remaining →
    memberCount α ≤ (front α s.rest).toNat → (read : Read α) s =
      (.error (.badEnum (name α) (front α s.rest) (memberCount α)), s.skip (width α))
  /-- A sequence without a length fails as the length does, -/
  read_length : ∀ (s t : Reader) (e : ProtocolError), Read.length s = (.error e, t) →
    (Read.members : Read (List α)) s = (.error e, t) ∧
      ((∃ needed remaining, e = .short needed remaining) ∨ ∃ n, e = .invalidLength n)
  /-- and behind a length, as the ordinals say that are found there. -/
  read_members : ∀ (s t : Reader) (n : Nat), Read.length s = (.ok n, t) →
    Ends (ordinals α n t.rest) n ((Read.members : Read (List α)) s).1

/-- **The code of an exact enumeration is exact**, whatever its size. -/
theorem ordinals_exact [ExactEnumerated α] : Exact α where
  write_eq := write_eq
  code_of_small h _ ha := code_of_small h ha
  code_of_large h a _ := code_of_large h a
  isLarge_iff e he := by
    rw [EnumSchema.isLarge, he, decide_eq_true_iff]
    rfl
  read_write as ha hl := by
    have hw : ∀ w, Write.members as w =
        (.ok (), w.append (lengthBytes as.length ++ as.flatMap code)) := by
      intro w
      rw [Write.members, Write.sequence, Step.bind_of_ok (Write.length_eq hl w), forEach_write,
        Writer.append_append]
    exact ⟨_, rfl, hw, (carries_members ha).yields hw⟩
  read_short _ h := read_of_lt h
  read_member _ h ho := read_of_member h ho
  read_bad _ h ho := read_of_bad h ho
  read_length s t e h := by
    refine ⟨Step.bind_of_error h _, ?_⟩
    exact Read.failsWith_length (P := fun e =>
      (∃ needed remaining, e = .short needed remaining) ∨ ∃ n, e = .invalidLength n)
      (fun needed remaining => .inl ⟨needed, remaining, rfl⟩) (fun n => .inr ⟨n, rfl⟩) h
  read_members s t n h := by
    have hr : (Read.members : Read (List α)) s = Step.repeated n read t := Step.bind_of_ok h _
    rw [hr]
    exact ends_repeated n t

/-- Of three ordinals in two bytes each, the second is the number of the members. -/
theorem ordinals_exact_three_hundred :
    Exact (Ordinal "Wide" 300) ∧
    ((Read.members : Read (List (Ordinal "Wide" 300))) ⟨0, [3, 0, 1, 1, 44, 1, 43]⟩).1 =
      .error (.badEnum "Wide" 300 300) := by
  have he : Exact (Ordinal "Wide" 300) := ordinals_exact
  refine ⟨he, ?_⟩
  have hends := he.read_members ⟨0, [3, 0, 1, 1, 44, 1, 43]⟩ ⟨1, [0, 1, 1, 44, 1, 43]⟩ 3 rfl
  have hbad : bad? (Ordinal "Wide" 300)
      (ordinals (Ordinal "Wide" 300) 3 [0, 1, 1, 44, 1, 43]) = some 300 := by decide
  cases hends with
  | bad h =>
    rw [hbad] at h
    cases h
    rfl

end Enumerated
end PacketRpc
