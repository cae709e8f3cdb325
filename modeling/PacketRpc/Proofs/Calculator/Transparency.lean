import PacketRpc.Calculator.Client
import PacketRpc.Proofs.Calculator.Replies
import PacketRpc.Proofs.Packet.Equality

/-!
# A calculation over the network

Over a network on which nothing fails, to ask the calculator for a value is to calculate it: the
client gets the bits that the server has calculated, and for the mean of no values the error that it
reports (`asking_calculates`). The request has to fit into an envelope that a decoder lets wait;
every reply of the calculator does.
-/

namespace PacketRpc

namespace Envelope

/-- A packet whose envelope a decoder lets wait as a whole. -/
def Fits (p : Packet) : Prop := ∃ bs, serialize p = .ok bs ∧ bs.length ≤ maxPacketSize

/-- What fits can be told without writing it. -/
theorem fits_iff {p : Packet} :
    Fits p ↔ (∀ n ∈ p.lengths, n ≤ maxLength) ∧ headerSize + p.bodySize ≤ maxPacketSize := by
  constructor
  · rintro ⟨bs, hs, hl⟩
    exact ⟨exists_serialize_iff.1 ⟨bs, hs⟩, length_serialize hs ▸ hl⟩
  · rintro ⟨hl, hm⟩
    obtain ⟨bs, hs⟩ := exists_serialize hl
    exact ⟨bs, hs, length_serialize hs ▸ hm⟩

end Envelope

namespace Calculator

open Envelope (Fits fits_iff serialize)

variable (values : List Binary32)

/-! ## Which requests and replies fit -/

theorem size_floats : FieldType.size (.array .float) (toField values) =
    lengthSize values.length + 4 * values.length := by
  show lengthSize (values.map toField).length + ((values.map toField).map _).sum = _
  have hf : (values.map toField).map FieldType.float.size = values.map fun _ => 4 := by
    rw [List.map_map]
    exact List.map_congr_left fun _ _ => rfl
  rw [hf, List.length_map, List.map_const', List.sum_replicate_nat, Nat.mul_comm]

variable {values} in
/-- Values that fit are not too many to be counted. -/
theorem fits_floats_iff {p : Packet} {n : Nat} (hl : p.lengths = [values.length])
    (hb : p.bodySize = n + (lengthSize values.length + 4 * values.length)) :
    Fits p ↔ headerSize + n + lengthSize values.length + 4 * values.length ≤ maxPacketSize := by
  have hm : maxPacketSize ≤ maxLength := by decide
  rw [fits_iff, hl, hb, List.forall_mem_singleton]
  omega

theorem fits_sum_iff : Fits (.calcSum ⟨values⟩) ↔
    headerSize + lengthSize values.length + 4 * values.length ≤ maxPacketSize := by
  refine fits_floats_iff (n := 0) (by simp [Packet.lengths]) ?_
  rw [Nat.zero_add, ← size_floats]
  exact Packet.bodySize_single rfl rfl rfl

theorem fits_mean_iff (kind : MeanKind) : Fits (.calcMean ⟨kind, values⟩) ↔
    headerSize + 1 + lengthSize values.length + 4 * values.length ≤ maxPacketSize := by
  refine fits_floats_iff (by simp [Packet.lengths]) ?_
  have hk : FieldType.size (.enumeration MeanKind.schema) (toField kind) = 1 := rfl
  have hs := size_floats values
  rw [Packet.bodySize_eq, PacketSchema.size, Packet.type, CalcMean.wireFields_eq]
  simp [Packet.references, Packet.fields, PacketType.schema, sizeFields, hk, hs]

theorem fits_result (c : RpcResult) : Fits (.rpcResult c) := by
  have hb : (Packet.rpcResult c).bodySize = FieldType.size .float (toField c.value) :=
    Packet.bodySize_single rfl rfl rfl
  exact fits_iff.2 ⟨by simp [Packet.lengths], by rw [hb, FieldType.size]; decide⟩

theorem fits_noValues : Fits (refusal (.handlerFailed "No values provided")) := by
  have hb : (refusal (.handlerFailed "No values provided")).bodySize =
      FieldType.size .string (.string "No values provided") := Packet.bodySize_single rfl rfl rfl
  exact fits_iff.2 ⟨by decide, by rw [hb]; decide⟩

/-! ## Asking -/

variable (n : Network) (co : ClientOptions) (so : ServerOptions) (number : Nat)

/-- To ask for something that fits is to take the value of the reply to it, if that fits, too. -/
theorem ask_eq {p : Packet} (hp : Fits p) (hw : p.WellFormed registry)
    (hr : Fits (reply (.ok (some p)))) (hs : Sendable (reply (.ok (some p)))) :
    ask co (n.route ((server so).service number)) p = valueOf (reply (.ok (some p))) := by
  obtain ⟨bs, hb, hl⟩ := hp
  obtain ⟨cs, hc, hm⟩ := hr
  have answered := (Client.send_eq_answer n (client co) ((server so).service number)
    (.ofTypes packetTypes) (.ofTypes packetTypes) hw hb hl).1 _ cs (answer?_eq_reply p)
    hs.wellFormed hc hm
  rw [ask, answered.1]

/-- **To ask for a calculation is to calculate.** Over a network on which nothing fails, and however
it cuts the bytes, a client that asks for a sum or a mean in a request that fits gets the bits that
are calculated of the same values, and for the mean of no values the error that says so. -/
theorem asking_calculates :
    (Fits (.calcSum ⟨values⟩) →
      sum co (n.route ((server so).service number)) values = .ok (calculateSum ⟨values⟩).value) ∧
    ∀ kind, Fits (.calcMean ⟨kind, values⟩) →
      (values ≠ [] → ∃ r, calculateMean ⟨kind, values⟩ = .ok r ∧
        meanOf co (n.route ((server so).service number)) kind values = .ok r.value) ∧
      (values = [] → meanOf co (n.route ((server so).service number)) kind values =
        .error (.reported "No values provided")) := by
  refine ⟨fun hf => ?_, fun kind hf => ?_⟩
  · -- the reply to a sum has its value, whatever the values are
    exact ask_eq n co so number hf (Packet.wellFormed_of_references rfl trivial rfl) (fits_result _)
      (.result _)
  · have hw : (Packet.calcMean ⟨kind, values⟩).WellFormed registry :=
      Packet.wellFormed_of_references rfl (Packet.isMember_kind kind) rfl
    refine ⟨fun hv => ?_, fun hv => ?_⟩
    · have hr : reply (.ok (some (.calcMean ⟨kind, values⟩))) =
          .rpcResult ⟨toBinary (mean kind (values.map ofBinary))⟩ := if_neg hv
      refine ⟨⟨toBinary (mean kind (values.map ofBinary))⟩, ?_, ?_⟩
      · rw [calculateMean, if_neg (by simpa using hv)]
      · rw [meanOf, ask_eq n co so number hf hw (hr ▸ fits_result _) (hr ▸ .result _), hr]
        rfl
    · have hr : reply (.ok (some (.calcMean ⟨kind, values⟩))) =
          refusal (.handlerFailed "No values provided") := if_pos hv
      rw [meanOf, ask_eq n co so number hf hw (hr ▸ fits_noValues)
        (hr ▸ sendable_refusal (by decide)), hr]
      rfl

/-- Three hundred values that are no numbers, whose length takes five bytes, and none. Requests come
byte by byte, responses in one piece behind an empty one. -/
theorem asking_calculates_long :
    let n : Network :=
      ⟨fun bs => bs.map fun b => [b], fun bs => [[], bs], List.flatMap_singleton', by simp⟩
    let values : List Binary32 := .replicate 300 ⟨0x7FA00001⟩
    let route := n.route ((server {}).service 0)
    sum {} route values = .ok (calculateSum ⟨values⟩).value ∧
    (∃ r, calculateMean ⟨.geometric, values⟩ = .ok r ∧
      meanOf {} route .geometric values = .ok r.value) ∧
    meanOf {} route .harmonic [] = .error (.reported "No values provided") := by
  intro n values route
  have hl : values.length = 300 := List.length_replicate
  have hv : values ≠ [] := List.ne_nil_of_length_pos (by rw [hl]; decide)
  obtain ⟨hs, hm⟩ := asking_calculates values n {} {} 0
  refine ⟨hs ((fits_sum_iff _).2 ?_), (hm .geometric ((fits_mean_iff _ _).2 ?_)).1 hv,
    ((asking_calculates [] n {} {} 0).2 .harmonic ((fits_mean_iff _ _).2 (by decide))).2 rfl⟩
  · rw [hl]
    decide
  · rw [hl]
    decide

end Calculator
end PacketRpc
