import PacketRpc.Proofs.Stream.Decoder

/-!
# What waits in a decoder

Calls come to a decoder in any order: it takes in bytes, is asked for the packet at the front, and
forgets all that waits (`Decoder.run`). What it has taken in since it last forgot consists of the
bytes of what it has handed out since, one behind the other, and of what waits (`Balanced.run`); an
error of reading that more input does not mend stays at the front until all is forgotten
(`Stuck.run`). Both follow from what one request for a packet can do (`Decoder.decode_cases`).
-/

namespace PacketRpc

/-- True of the errors that stay whatever more input comes. -/
def ProtocolError.isFinal : ProtocolError → Bool
  | unknownHash _ | badEnum .. | invalidLength _ | invalidText => true
  | _ => false

theorem ProtocolError.isFinal_of_ofReading {e : ProtocolError} (h : e.ofReading = true)
    (hi : e.isIncomplete = false) : e.isFinal = true := by
  cases e
  case unknownHash | badEnum | invalidLength | invalidText => rfl
  case short => cases hi
  all_goals cases h

/-! ## The reserved hash -/

/-- Eight bytes stand for the reserved hash only if all of them are zero. -/
theorem PacketHash.eq_zeros_of_isNull {bs : List UInt8} (hl : bs.length = headerSize)
    (h : (ofBytes bs).isNull = true) : bs = List.replicate headerSize 0 := by
  have hv := BigEndian.value_lt bs
  rw [hl] at hv
  have hz : (UInt64.ofNat (BigEndian.value bs)).toInt64 = 0 := by
    simpa [isNull, ofBytes] using h
  have hn : BigEndian.value bs = 0 :=
    calc BigEndian.value bs
      _ = (UInt64.ofNat (BigEndian.value bs)).toInt64.toUInt64.toNat :=
        (UInt64.toNat_ofNat_of_lt hv).symm
      _ = 0 := by rw [hz]; rfl
  rw [← BigEndian.bytes_value bs, hl, hn]
  rfl

/-- Where an envelope holds no packet, it is eight zeros. -/
theorem Envelope.eq_zeros_of_null {r : Registry} {cs : List UInt8}
    (hy : Yields (read r) cs (.ok none)) : cs = List.replicate headerSize 0 := by
  have hl := length_of_null hy
  have hr := hy 0 []
  have hs : headerSize ≤ (Reader.mk 0 (cs ++ [])).remaining := by simp [Reader.remaining, hl]
  have ht : (cs ++ []).take headerSize = cs := by rw [List.append_nil, ← hl, List.take_length]
  rw [read_eq, Registry.readHeaded_of_le hs] at hr
  simp only [ht] at hr
  split at hr
  · next hn => exact PacketHash.eq_zeros_of_isNull hl hn
  · split at hr
    · cases hr
    · obtain ⟨p, t, -, hp⟩ := Step.bind_eq_ok hr
      cases hp

namespace Decoder

/-! ## One request -/

/-- **What a request for a packet can do**: hand out the packet at the front, take away a reserved
hash, or leave all as it is, where nothing can be read or too little has come. -/
theorem decode_cases (d : Decoder) :
    (∃ cs p rest, d.buffer = cs ++ rest ∧ Yields (Envelope.read d.registry) cs (.ok (some p)) ∧
      d.decode = (.ok (some p), { d with buffer := rest })) ∨
    (∃ cs rest, d.buffer = cs ++ rest ∧ Yields (Envelope.read d.registry) cs (.ok none) ∧
      d.decode = (.error .nullPacket, { d with buffer := rest })) ∨
    (∃ cs e rest, d.buffer = cs ++ rest ∧ Yields (Envelope.read d.registry) cs (.error e) ∧
      e.isFinal = true ∧ d.decode = (.error e, d)) ∨
    (d.decode = (.ok none, d) ∨ d.decode = (.error (.packetTooLarge d.buffered d.maxSize), d)) := by
  induction hb : d.buffer using Envelope.induct_stream d.registry with
  | packet cs p rest hy _ => exact .inl ⟨cs, p, rest, rfl, hy, decode_of_packet hb hy⟩
  | null cs rest hy _ => exact .inr (.inl ⟨cs, rest, rfl, hy, decode_of_null hb hy⟩)
  | undecodable cs e rest hy he =>
    have hf := ProtocolError.isFinal_of_ofReading (Envelope.ofReading_of_yields hy) he
    exact .inr (.inr (.inl ⟨cs, e, rest, rfl, hy, hf, decode_of_undecodable hb hy he⟩))
  | unfinished bs hs =>
    rw [decode_of_short (hb ▸ hs)]
    refine .inr (.inr (.inr ?_))
    split
    · exact .inr rfl
    · exact .inl rfl

/-- Something is handed out with the bytes of a hash at least, and else nothing leaves. -/
theorem buffered_of_decode (d : Decoder) :
    match d.decode with
    | (.ok (some _), d') | (.error .nullPacket, d') => d'.buffered + headerSize ≤ d.buffered
    | (_, d') => d' = d := by
  obtain ⟨cs, p, rest, hb, hy, h⟩ | ⟨cs, rest, hb, hy, h⟩ | ⟨cs, e, rest, -, -, he, h⟩ | h | h :=
    d.decode_cases
  · have := Envelope.headerSize_le hy (not_short_ok _)
    simp only [h, buffered, hb, List.length_append]
    omega
  · have := Envelope.length_of_null hy
    simp only [h, buffered, hb, List.length_append]
    omega
  · rw [h]
    cases e <;> first | rfl | cases he
  · rw [h]
  · rw [h]

/-! ## Runs of calls -/

/-- What can be asked of a decoder. -/
inductive Call
  | extend (bs : List UInt8)
  | decode
  | clear
  deriving DecidableEq

/-- What comes of a call. -/
inductive Event
  | extended (bs : List UInt8)
  | answered (o : Except ProtocolError (Option Packet))
  | cleared

/-- What comes of a call, and the decoder behind it. -/
def call (d : Decoder) : Call → Event × Decoder
  | .extend bs => (.extended bs, d.extend bs)
  | .decode => (.answered d.decode.1, d.decode.2)
  | .clear => (.cleared, d.clear)

/-- What comes of calls in turn, and the decoder behind the last of them. -/
def run (d : Decoder) : List Call → List Event × Decoder
  | [] => ([], d)
  | c :: cs => ((d.call c).1 :: (run (d.call c).2 cs).1, (run (d.call c).2 cs).2)

/-- What has been taken in since all was last forgotten, and what has been handed out of it, where
nothing stands for a reserved hash. -/
structure Account where
  received : List UInt8 := []
  handed : List (Option Packet) := []

namespace Account

/-- The account behind an event. -/
def record (a : Account) : Event → Account
  | .extended bs => { a with received := a.received ++ bs }
  | .answered (.ok (some p)) => { a with handed := a.handed ++ [some p] }
  | .answered (.error .nullPacket) => { a with handed := a.handed ++ [none] }
  | .answered _ => a
  | .cleared => {}

/-- The account of events from the first on. -/
def ofEvents (es : List Event) : Account := es.foldl record {}

end Account

/-! ## The buffer -/

/-- The bytes on their own are an envelope of the packet and nothing more, or a reserved hash. -/
def IsSpan (r : Registry) (bs : List UInt8) : Option Packet → Prop
  | some p => Envelope.read r (.start bs) = (.ok (some p), ⟨bs.length, []⟩)
  | none => bs = List.replicate headerSize 0

/-- What has been taken in are the bytes of what has been handed out, in turn, and what waits. -/
def Balanced (d : Decoder) (a : Account) : Prop :=
  ∃ spans : List (List UInt8 × Option Packet), spans.map Prod.snd = a.handed ∧
    (∀ s ∈ spans, IsSpan d.registry s.1 s.2) ∧
    a.received = (spans.map Prod.fst).flatten ++ d.buffer

theorem isSpan_of_yields {r : Registry} {cs : List UInt8} {p : Packet}
    (hy : Yields (Envelope.read r) cs (.ok (some p))) : IsSpan r cs (some p) := by
  have h : Envelope.read r (.start (cs ++ [])) = (.ok (some p), ⟨cs.length, []⟩) :=
    Envelope.read_start hy
  rwa [List.append_nil] at h

namespace Balanced

variable {d : Decoder} {a : Account}

/-- What is handed out comes with the bytes in front of what waits then. -/
theorem hand {cs rest : List UInt8} {o : Option Packet} (h : d.Balanced a)
    (hb : d.buffer = cs ++ rest) (ho : IsSpan d.registry cs o) :
    Balanced { d with buffer := rest } { a with handed := a.handed ++ [o] } := by
  obtain ⟨spans, hh, hs, hr⟩ := h
  refine ⟨spans ++ [(cs, o)], by simp [hh], ?_, by simp [hr, hb]⟩
  intro s hm
  rcases List.mem_append.1 hm with hm | hm
  · exact hs s hm
  · obtain rfl := List.mem_singleton.1 hm
    exact ho

theorem decode (h : d.Balanced a) : d.decode.2.Balanced (a.record (.answered d.decode.1)) := by
  obtain ⟨cs, p, rest, hb, hy, hd⟩ | ⟨cs, rest, hb, hy, hd⟩ | ⟨_, e, _, -, -, he, hd⟩ | hd | hd :=
    d.decode_cases
  · rw [hd]
    exact h.hand hb (isSpan_of_yields hy)
  · rw [hd]
    exact h.hand hb (Envelope.eq_zeros_of_null hy)
  · rw [hd]
    cases e <;> first | exact h | cases he
  · rwa [hd]
  · rwa [hd]

theorem call (h : d.Balanced a) (c : Call) : (d.call c).2.Balanced (a.record (d.call c).1) := by
  cases c with
  | extend bs =>
    obtain ⟨spans, hh, hs, hr⟩ := h
    exact ⟨spans, hh, hs, by simp [Decoder.call, Account.record, Decoder.extend, hr]⟩
  | decode => exact h.decode
  | clear => exact ⟨[], rfl, by simp, rfl⟩

theorem run (h : d.Balanced a) (cs : List Call) :
    (d.run cs).2.Balanced ((d.run cs).1.foldl Account.record a) := by
  induction cs generalizing d a with
  | nil => exact h
  | cons c cs ih => exact ih (h.call c)

end Balanced

theorem registry_call (d : Decoder) (c : Call) : (d.call c).2.registry = d.registry := by
  cases c with
  | extend | clear => rfl
  | decode =>
    obtain ⟨_, _, _, -, -, h⟩ | ⟨_, _, -, -, h⟩ | ⟨_, _, _, -, -, -, h⟩ | h | h := d.decode_cases
    all_goals rw [call, h]

theorem registry_run (d : Decoder) (cs : List Call) : (d.run cs).2.registry = d.registry := by
  induction cs generalizing d with
  | nil => rfl
  | cons c cs ih => exact (ih _).trans (registry_call d c)

/-! ## Errors that stay -/

/-- The bytes in front cannot be read, whatever follows. -/
def Stuck (e : ProtocolError) (d : Decoder) : Prop :=
  e.isFinal = true ∧ ∃ cs rest, d.buffer = cs ++ rest ∧
    Yields (Envelope.read d.registry) cs (.error e)

namespace Stuck

variable {e : ProtocolError} {d : Decoder}

theorem decode (h : Stuck e d) : d.decode = (.error e, d) := by
  obtain ⟨he, cs, rest, hb, hy⟩ := h
  exact decode_of_undecodable hb hy (by cases e <;> first | rfl | cases he)

theorem extend (h : Stuck e d) (bs : List UInt8) : Stuck e (d.extend bs) := by
  obtain ⟨he, cs, rest, hb, hy⟩ := h
  exact ⟨he, cs, rest ++ bs, by simp [Decoder.extend, hb], hy⟩

/-- A decoder that has said so is stuck. -/
theorem of_decode (h : d.decode.1 = .error e) (he : e.isFinal = true) : Stuck e d.decode.2 := by
  obtain ⟨_, _, _, -, -, hd⟩ | ⟨_, _, -, -, hd⟩ | ⟨cs, e', rest, hb, hy, -, hd⟩ | hd | hd :=
    d.decode_cases
  all_goals rw [hd] at h ⊢
  · cases h
  · cases h
    cases he
  · cases h
    exact ⟨he, cs, rest, hb, hy⟩
  · cases h
  · cases h
    cases he

/-- Until all is forgotten, a stuck decoder has one answer. -/
theorem run (h : Stuck e d) {cs : List Call} (hc : Call.clear ∉ cs) :
    ∀ o, Event.answered o ∈ (d.run cs).1 → o = .error e := by
  induction cs generalizing d with
  | nil => exact fun o ho => absurd ho List.not_mem_nil
  | cons c cs ih =>
    obtain ⟨hne, hcs⟩ := List.ne_and_not_mem_of_not_mem_cons hc
    intro o ho
    cases c with
    | extend bs =>
      rcases List.mem_cons.1 ho with ho | ho
      · cases ho
      · exact ih (h.extend bs) hcs o ho
    | decode =>
      rw [Decoder.run, call, h.decode] at ho
      rcases List.mem_cons.1 ho with ho | ho
      · exact Event.answered.inj ho
      · exact ih h hcs o ho
    | clear => exact absurd rfl hne

end Stuck

/-- **The bytes of a decoder are accounted for.** In every run of calls, what has been taken in
since all was last forgotten are the bytes of the packets and reserved hashes handed out since, in
turn, and what waits. A request that hands out nothing leaves the decoder as it is, and every other
takes eight bytes at least. Where a hash is unknown, an ordinal or a length bad or a text no text,
all later requests say so as well, whatever comes in between, until all is forgotten. -/
theorem buffer_accounted (r : Registry) (max : Nat) (calls : List Call) :
    let d := (run { registry := r, maxSize := max } calls).2
    let a := Account.ofEvents (run { registry := r, maxSize := max } calls).1
    (∃ spans : List (List UInt8 × Option Packet), spans.map Prod.snd = a.handed ∧
      (∀ s ∈ spans, IsSpan r s.1 s.2) ∧ a.received = (spans.map Prod.fst).flatten ++ d.buffer) ∧
    (match d.decode with
      | (.ok (some _), d') | (.error .nullPacket, d') => d'.buffered + headerSize ≤ d.buffered
      | (_, d') => d' = d) ∧
    ∀ e, d.decode.1 = .error e → e.isFinal = true → ∀ more, Call.clear ∉ more →
      ∀ o, Event.answered o ∈ (d.decode.2.run more).1 → o = .error e := by
  intro d a
  have hb : d.Balanced a := by
    refine Balanced.run (a := {}) ?_ calls
    exact ⟨[], rfl, by simp, rfl⟩
  refine ⟨?_, d.buffered_of_decode, fun e hd he more hm => (Stuck.of_decode hd he).run hm⟩
  obtain ⟨spans, hh, hs, hr⟩ := hb
  have hreg : d.registry = r := registry_run _ calls
  exact ⟨spans, hh, hreg ▸ hs, hr⟩

/-- A reserved hash in two pieces, of which the first does not suffice, and behind it a hash that is
not known. -/
theorem buffer_accounted_unknown :
    let r := Registry.ofTypes [.calcSum]
    let unknown := List.replicate 8 255
    let calls := [.extend [0, 0, 0], .decode, .extend (List.replicate 5 0 ++ unknown), .decode]
    let d := (run { registry := r, maxSize := 16 } calls).2
    let a := Account.ofEvents (run { registry := r, maxSize := 16 } calls).1
    (d.decode.1 = .error (.unknownHash ⟨-1⟩) ∧ (ProtocolError.unknownHash ⟨-1⟩).isFinal = true) ∧
    (a.handed = [none] ∧ ∃ spans : List (List UInt8 × Option Packet),
      spans.map Prod.snd = a.handed ∧ (∀ s ∈ spans, IsSpan r s.1 s.2) ∧
      a.received = (spans.map Prod.fst).flatten ++ d.buffer) ∧
    d.decode.2 = d ∧
    ∀ more, Call.clear ∉ more → ∀ o, Event.answered o ∈ (d.decode.2.run more).1 →
      o = .error (.unknownHash ⟨-1⟩) := by
  intro r unknown calls d a
  have hn : Envelope.read r (.start (List.replicate 8 0 ++ unknown)) =
      (.ok none, ⟨8, unknown⟩) := by
    rw [Envelope.read_eq, Registry.readHeaded_of_le (by decide)]
    rfl
  have hu : Envelope.read r (.start unknown) = (.error (.unknownHash ⟨-1⟩), ⟨8, []⟩) := by
    rw [Envelope.read_eq, Registry.readHeaded_of_le (by decide)]
    rfl
  have hnull : decode ⟨r, 16, List.replicate 8 0 ++ unknown⟩ =
      (.error .nullPacket, ⟨r, 16, unknown⟩) := by
    rw [decode, hn]
    rfl
  have hrun : run { registry := r, maxSize := 16 } calls =
      ([.extended [0, 0, 0], .answered (.ok none), .extended (List.replicate 5 0 ++ unknown),
        .answered (.error .nullPacket)], ⟨r, 16, unknown⟩) := by
    show ([_, _, _, Event.answered (decode ⟨r, 16, List.replicate 8 0 ++ unknown⟩).1],
      (decode ⟨r, 16, List.replicate 8 0 ++ unknown⟩).2) = _
    rw [hnull]
    rfl
  have hd : d.decode = (.error (.unknownHash ⟨-1⟩), d) := by
    simp only [d, hrun, decode, hu]
    rfl
  obtain ⟨hb, hk, hs⟩ := buffer_accounted r 16 calls
  rw [hd] at hk
  have he : d.decode.1 = .error (.unknownHash ⟨-1⟩) := by rw [hd]
  refine ⟨⟨he, rfl⟩, ⟨?_, hb⟩, ?_, hs _ he rfl⟩
  · simp only [a, hrun]
    rfl
  · rw [hd]

end Decoder
end PacketRpc
