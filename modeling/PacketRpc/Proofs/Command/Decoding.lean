import Mathlib.Data.Bool.AllAny
import PacketRpc.Command.Run
import PacketRpc.Proofs.Bytes.Hex
import PacketRpc.Proofs.Packet.Equality

/-!
# What the command line encodes, it decodes

The line that is printed for a request can be handed back in any letter case, with white space
around it and with more digits behind it. White space at the ends is trimmed (`Text.trim_around`),
digits stand for the same bytes in either case, the digits behind stand for bytes of their own
(`Hex.decode_append`), and a packet is read without regard to the bytes behind it. So the request is
shown again (`CommandLine.decode_encode`).
-/

namespace PacketRpc

/-! ## White space around a text -/

namespace Text

/-- White space only. -/
def IsBlank (text : String) : Prop := ∀ c ∈ text.toList, isWhiteSpace c = true

instance (text : String) : Decidable (IsBlank text) :=
  List.decidableBAll (fun c => isWhiteSpace c = true) text.toList

theorem dropWhile_append_of_head {α : Type} {p : α → Bool} {as bs : List α}
    (ha : ∀ a ∈ as, p a = true) (hb : ∀ b ∈ bs.head?, p b = false) :
    (as ++ bs).dropWhile p = bs := by
  rw [List.dropWhile_append_of_pos ha]
  cases bs with
  | nil => rfl
  | cons b bs => rw [List.dropWhile_cons_of_neg (by simp [hb b rfl])]

/-- Trimming leaves of a text what stands between white space and has none itself. -/
theorem trim_around {before text after : String} (hb : IsBlank before) (hn : text ≠ "")
    (ht : ∀ c ∈ text.toList, isWhiteSpace c = false) (ha : IsBlank after) :
    trim (before ++ text ++ after) = text := by
  obtain ⟨c, cs, hc⟩ := List.exists_cons_of_ne_nil (mt String.toList_eq_nil_iff.1 hn)
  have front : (before.toList ++ (text.toList ++ after.toList)).dropWhile isWhiteSpace =
      text.toList ++ after.toList := by
    refine dropWhile_append_of_head hb fun d hd => ht d ?_
    rw [hc] at hd ⊢
    cases hd
    exact List.mem_cons_self
  have back : (after.toList.reverse ++ text.toList.reverse).dropWhile isWhiteSpace =
      text.toList.reverse :=
    dropWhile_append_of_head (fun d hd => ha d (List.mem_reverse.1 hd)) fun d hd =>
      ht d (List.mem_reverse.1 (List.mem_of_mem_head? hd))
  rw [trim, trimList, String.toList_append, String.toList_append, List.append_assoc, front,
    List.reverse_append, back, List.reverse_reverse, String.ofList_toList]

end Text

/-! ## Digits in a row -/

namespace Hex

theorem toUpper_append (s t : String) : (s ++ t).toUpper = s.toUpper ++ t.toUpper := by
  simp only [← String.toList_inj, String.toUpper, String.toList_map, String.toList_append,
    List.map_append]

theorem encodeUpper_append (bs cs : List UInt8) :
    encodeUpper (bs ++ cs) = encodeUpper bs ++ encodeUpper cs := by
  simp [encodeUpper, digits]

/-- Texts in a row stand for their bytes in a row. -/
theorem decode_append {s t : String} {bs cs : List UInt8} (hs : decode s = .ok bs)
    (ht : decode t = .ok cs) : decode (s ++ t) = .ok (bs ++ cs) := by
  rw [decode_eq_ok_iff] at *
  rw [toUpper_append, encodeUpper_append, hs, ht]

theorem not_isWhiteSpace {c : Char} (h : IsDigit c) : Text.isWhiteSpace c = false := by
  rw [isDigit_iff, isUpperDigit_iff] at h
  simp only [Text.isWhiteSpace, Bool.or_eq_false_iff, Bool.and_eq_false_iff,
    decide_eq_false_iff_not, beq_eq_false_iff_ne]
  omega

end Hex

/-! ## Requests -/

/-- The values of a calculation. -/
def Calculation.values : Calculation → List Binary32
  | sum values | mean _ values => values

namespace Calculation

variable (c : Calculation)

theorem lengths_request : c.request.lengths = [c.values.length] := by
  cases c <;> simp [request, values, Packet.lengths]

theorem wellFormed_request : c.request.WellFormed Calculator.registry := by
  cases c with
  | sum values => exact Packet.wellFormed_of_references rfl trivial rfl
  | mean kind values => exact Packet.wellFormed_of_references rfl (Packet.isMember_kind kind) rfl

end Calculation

namespace Command

open Envelope (serialize)

variable {c : Calculation} {bs : List UInt8}

/-- Digits that stand for a written request, whatever bytes follow, show the request. -/
theorem decodeText_of_decode {text : String} {cs : List UInt8} (hs : serialize c.request = .ok bs)
    (ht : Hex.decode (Text.trim text) = .ok (bs ++ cs)) :
    decodeText text = .ok (some c.request) := by
  have hy := Envelope.yields_serialize (.ofTypes _) c.wellFormed_request hs 0 cs
  have hd : Envelope.deserialize Calculator.registry (bs ++ cs) = .ok (some c.request) :=
    congrArg Prod.fst hy
  simp only [decodeText, ht, hd]

/-- Digits can be trimmed of the white space around them. -/
theorem trim_digits {before text after : String} (hb : Text.IsBlank before)
    (ht : Hex.decode text = .ok bs) (hn : bs ≠ []) (ha : Text.IsBlank after) :
    Text.trim (before ++ text ++ after) = text := by
  have hd := (Hex.exists_decode_iff.1 ⟨bs, ht⟩).2
  refine Text.trim_around hb ?_ (fun ch hch => Hex.not_isWhiteSpace (hd ch hch)) ha
  rintro rfl
  cases ht
  exact hn rfl

end Command

namespace CommandLine

/-- **What is encoded can be decoded.** A request for the sum or a mean of any values, as long as
they can be counted, is printed as digits. In whatever case their letters are, with any white space
around them, and with the digits of any further bytes behind them, they are shown as the request. -/
theorem decode_encode (l : CommandLine) (isColoured : Bool) (route : Route) {c : Calculation}
    (hc : c.values.length ≤ maxLength) :
    ∃ printed, { l with command := .encode c }.result isColoured route = .ok printed ∧
      ∀ before digits more after : String, Text.IsBlank before →
        digits.toUpper = printed.toUpper →
        more.length % 2 = 0 ∧ (∀ ch ∈ more.toList, Hex.IsDigit ch) → Text.IsBlank after →
        { l with command := .decode (before ++ digits ++ more ++ after) }.result isColoured route =
          .ok c.request.display := by
  obtain ⟨bs, hs⟩ := Envelope.exists_serialize (p := c.request) (by
    rw [c.lengths_request, List.forall_mem_singleton]
    exact hc)
  have hn : bs ≠ [] := by
    rintro rfl
    have hl := Envelope.length_serialize hs
    have : 0 < headerSize := by decide
    rw [List.length_nil] at hl
    omega
  refine ⟨Hex.encode bs, ?_, fun before digits more after hb hd hm ha => ?_⟩
  · simp only [result, Command.encodeText, hs]
  · obtain ⟨cs, hcs⟩ := Hex.exists_decode_iff.2 hm
    have hbs : Hex.decode digits = .ok bs :=
      Hex.decode_eq_ok_iff.2 (hd.trans (Hex.toUpper_digits false bs))
    have hall := Hex.decode_append hbs hcs
    have htrim := Command.trim_digits hb hall (by simp [hn]) ha
    rw [← String.append_assoc] at htrim
    rw [← htrim] at hall
    simp only [result, Command.decodeText_of_decode hs hall]
    rfl

/-- The harmonic mean of a number that is none and the negative zero: what is printed for it is read
with its letters in both cases, two more bytes behind it and white space at both ends. -/
theorem decode_encode_padded :
    let c := Calculation.mean .harmonic [⟨0x7FC00001⟩, ⟨0x80000000⟩]
    let l : CommandLine := ⟨"localhost", 5900, 1000, .encode c⟩
    let text := " \t" ++ "0471B99c4b66CEe102027FC0000180000000" ++ "00fF" ++ "\n"
    c.values.length ≤ maxLength ∧
    l.result false .unresolved = .ok "0471b99c4b66cee102027fc0000180000000" ∧
    { l with command := .decode text }.result false .unresolved =
      .ok "\x7bCalcMean 0471B99C4B66CEE1 type=Harmonic values=\x7bfloat *2|NaN|-0\x7d\x7d" := by
  intro c l text
  have hc : c.values.length ≤ maxLength := by decide
  have hl : l.result false .unresolved = .ok "0471b99c4b66cee102027fc0000180000000" := by
    have hs : Envelope.serialize c.request = .ok [0x04, 0x71, 0xB9, 0x9C, 0x4B, 0x66, 0xCE, 0xE1,
        2, 2, 0x7F, 0xC0, 0, 1, 0x80, 0, 0, 0] := by decide +kernel
    have ht : Hex.encode [0x04, 0x71, 0xB9, 0x9C, 0x4B, 0x66, 0xCE, 0xE1, 2, 2, 0x7F, 0xC0, 0, 1,
        0x80, 0, 0, 0] = "0471b99c4b66cee102027fc0000180000000" := by decide
    simp only [l, result, Command.encodeText, hs, ht]
  have hd : c.request.display =
      "\x7bCalcMean 0471B99C4B66CEE1 type=Harmonic values=\x7bfloat *2|NaN|-0\x7d\x7d" := by
    decide +kernel
  obtain ⟨printed, hp, hr⟩ := decode_encode l false .unresolved hc
  rw [hl] at hp
  cases hp
  have hmore : ∀ ch ∈ "00fF".toList, Hex.IsDigit ch := by
    rw [← List.all_iff_forall_prop]
    decide
  have hcase : "0471B99c4b66CEe102027FC0000180000000".toUpper =
      "0471b99c4b66cee102027fc0000180000000".toUpper := by
    rw [← String.toList_inj, String.toUpper, String.toUpper, String.toList_map, String.toList_map]
    decide
  have shown := hr " \t" _ "00fF" "\n" (by decide) hcase ⟨by decide, hmore⟩ (by decide)
  rw [hd] at shown
  exact ⟨hc, hl, shown⟩

end CommandLine
end PacketRpc
