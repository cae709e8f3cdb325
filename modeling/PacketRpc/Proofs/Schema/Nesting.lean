import Mathlib.Data.Nat.Init
import PacketRpc.Schema.Version

/-!
# Sequences within sequences

`FieldType.versionText t seen` is what a version string has for a type where the packet names `seen`
have been met; it does not depend on what is spelled before it (`FieldType.framed_spell`). A
sequence of sequences is marked once for both of them (`FieldType.versionText_array_array`), so two
further layers are one more mark. `FieldType.depth_shows_in_pairs` says which depths have different
texts: for packets all of them, because the single layer has its mark within the braces, and for all
else only those that do not make such a pair.
-/

namespace PacketRpc

/-! ## What is spelled before -/

namespace Spelling

/-- The spelling with a text in front. -/
def behind (text : String) (s : Spelling) : Spelling := { s with text := text ++ s.text }

/-- True of what goes on in the same way whatever stands before. -/
def Framed (f : Spelling → Spelling) : Prop := ∀ text s, f (s.behind text) = (f s).behind text

theorem framed_put (t : String) : Framed (·.put t) := fun text s => by
  simp [put, behind, String.append_assoc]

theorem framed_enter (name : String) : Framed (·.enter name) := fun text s => by
  simp [enter, behind, String.append_assoc]

variable {f g : Spelling → Spelling}

theorem Framed.comp (hg : Framed g) (hf : Framed f) : Framed fun s => g (f s) := fun text s => by
  show g (f (s.behind text)) = _
  rw [hf, hg]

theorem Framed.packet (hf : Framed f) (mark name : String) :
    Framed fun s => s.packet mark name f := by
  intro text s
  show Spelling.packet _ mark name f = _
  simp only [Spelling.packet]
  rw [show (s.behind text).seen = s.seen from rfl]
  split
  · exact framed_put _ text s
  · exact ((framed_put _).comp (hf.comp ((framed_enter name).comp (framed_put _)))) text s

theorem Framed.text_eq (hf : Framed f) (s : Spelling) :
    (f s).text = s.text ++ (f { seen := s.seen }).text := by
  have hs : s = ({ seen := s.seen } : Spelling).behind s.text := by simp [behind]
  conv => lhs; rw [hs, hf]
  rfl

end Spelling

namespace FieldType

open Spelling

variable {t : FieldType} {name : String} {fields : List (String × FieldType)} {seen : List String}

theorem framed_spellFields (h : ∀ f ∈ fields, Framed (spell f.2)) :
    Framed (spellFields fields) := by
  induction fields with
  | nil => exact fun _ _ => rfl
  | cons f fields ih =>
    have hrest := ih fun g hg => h g (List.mem_cons_of_mem f hg)
    have hf := h f List.mem_cons_self
    intro text s
    rw [spellFields, spellFields]
    exact (hrest.comp (hf.comp (framed_put _))) text s

/-- A type is spelled in the same way whatever stands before it, and so is a sequence of such. -/
theorem framed_spell_and (t : FieldType) : Framed (spell t) ∧ Framed (spell (array t)) := by
  -- a sequence of packets is spelled by way of their fields, which only the packets' case has
  induction t with
  | embedded name fields ih =>
    have hf : Framed (spellFields fields) := framed_spellFields fun f hf => (ih f hf).1
    exact ⟨fun text s => by rw [spell, spell]; exact hf.packet "" name text s,
      fun text s => by rw [spell, spell]; exact hf.packet "[]" name text s⟩
  | array t ih =>
    exact ⟨ih.2, fun text s => by rw [spell, spell]; exact (ih.1.comp (framed_put "[]")) text s⟩
  | _ => exact ⟨framed_put _, framed_put _⟩

theorem framed_spell (t : FieldType) : Framed (spell t) := t.framed_spell_and.1

/-! ## Layers -/

/-- What a version string has for a type, where packets of the names `seen` have been met. -/
def versionText (t : FieldType) (seen : List String) : String := (spell t.sorted { seen }).text

/-- A type within layers of sequences. -/
def nested (t : FieldType) : (depth : Nat) → FieldType
  | 0 => t
  | depth + 1 => array (nested t depth)

def IsPacket : FieldType → Prop
  | embedded .. => True
  | _ => False

/-- A sequence of sequences has one mark for both, whatever their elements are. -/
theorem versionText_array_array (t : FieldType) (seen : List String) :
    versionText (array (array t)) seen = "[]" ++ versionText t seen := by
  rw [versionText, sorted, sorted, spell, (framed_spell _).text_eq]
  rfl

theorem versionText_array (ht : ∀ u, t ≠ array u) (hp : ¬ t.IsPacket) (seen : List String) :
    versionText (array t) seen = "[]" ++ versionText t seen := by
  cases t with
  | embedded => exact absurd trivial hp
  | array u => exact absurd rfl (ht u)
  | _ => simp [versionText, sorted, spell, put, primitiveName]

/-- A sequence of packets has its mark within the braces. -/
theorem versionText_packets (hp : t.IsPacket) (seen : List String) :
    ∃ text, versionText t seen = "\x7b" ++ text ∧
      versionText (array t) seen = "\x7b[]" ++ text := by
  cases t with
  | embedded name fields =>
    simp only [versionText, sorted, spell]
    generalize hg : inWireOrder (sortedEach fields) = gs
    have hf : Framed (spellFields gs) := framed_spellFields fun f _ => framed_spell f.2
    simp only [Spelling.packet]
    split
    · exact ⟨name ++ "+...\x7d", by simp [put, String.append_assoc],
        by simp [put, String.append_assoc]⟩
    · refine ⟨name ++ (spellFields gs { seen := name :: seen }).text ++ "\x7d", ?_, ?_⟩
      all_goals
        rw [put, hf.text_eq]
        simp [put, enter, String.append_assoc]
  | _ => exact hp.elim

theorem versionText_nested_add_two (t : FieldType) (n : Nat) (seen : List String) :
    versionText (nested t (n + 2)) seen = "[]" ++ versionText (nested t n) seen :=
  versionText_array_array _ seen

/-- Two layers take as many letters as one of them. -/
theorem length_versionText_nested (ht : ∀ u, t ≠ array u) (seen : List String) (n : Nat) :
    (versionText (nested t n) seen).length =
      (versionText t seen).length + 2 * ((n + 1) / 2) := by
  induction n using Nat.twoStepInduction with
  | zero => rfl
  | one =>
    by_cases hp : t.IsPacket
    · obtain ⟨text, h, ha⟩ := versionText_packets hp seen
      rw [nested, nested, ha, h]
      simp only [String.length_append]
      show 3 + text.length = 1 + text.length + 2
      omega
    · rw [nested, nested, versionText_array ht hp, String.length_append]
      exact Nat.add_comm 2 _
  | more n ih _ =>
    rw [versionText_nested_add_two, String.length_append, ih]
    show 2 + _ = _
    omega

/-- But for packets, one layer more than an even number of them is spelled like two more. -/
theorem versionText_nested_even (ht : ∀ u, t ≠ array u) (hp : ¬ t.IsPacket) (seen : List String)
    (k : Nat) :
    versionText (nested t (2 * k + 1)) seen = versionText (nested t (2 * k + 2)) seen := by
  induction k with
  | zero => exact (versionText_array ht hp seen).trans (versionText_array_array t seen).symm
  | succ k ih => rw [Nat.mul_succ, Nat.add_right_comm, versionText_nested_add_two, ih,
      ← versionText_nested_add_two]

theorem append_right_inj_text {x y z : String} : x ++ y = x ++ z ↔ y = z := by
  simp [← String.toList_inj]

theorem versionText_nested_packets (hp : t.IsPacket) (seen : List String) (k : Nat) :
    versionText (nested t (2 * k + 1)) seen ≠ versionText (nested t (2 * k + 2)) seen := by
  induction k with
  | zero =>
    obtain ⟨text, h, ha⟩ := versionText_packets hp seen
    show versionText (array t) seen ≠ versionText (array (array t)) seen
    rw [versionText_array_array, ha, h]
    simp [← String.toList_inj]
  | succ k ih =>
    rw [Nat.mul_succ, Nat.add_right_comm, versionText_nested_add_two, versionText_nested_add_two]
    exact fun h => ih (append_right_inj_text.1 h)

theorem versionText_nested_eq_iff (ht : ∀ u, t ≠ array u) (seen : List String) (m n : Nat) :
    versionText (nested t m) seen = versionText (nested t n) seen ↔
      m = n ∨ ¬ t.IsPacket ∧ (m + 1) / 2 = (n + 1) / 2 := by
  -- depths that make the same number of marks are equal or an odd one and the even one behind it
  have pair {m n : Nat} (h : (m + 1) / 2 = (n + 1) / 2) : m = n ∨
      (∃ k, m = 2 * k + 1 ∧ n = 2 * k + 2) ∨ ∃ k, n = 2 * k + 1 ∧ m = 2 * k + 2 := by
    rcases Nat.lt_trichotomy m n with hl | rfl | hl
    · exact .inr (.inl ⟨m / 2, by omega, by omega⟩)
    · exact .inl rfl
    · exact .inr (.inr ⟨n / 2, by omega, by omega⟩)
  constructor
  · intro h
    have hl := congrArg String.length h
    rw [length_versionText_nested ht, length_versionText_nested ht] at hl
    have hmarks : (m + 1) / 2 = (n + 1) / 2 := by omega
    refine (pair hmarks).imp_right fun hk => ⟨fun hp => ?_, hmarks⟩
    rcases hk with ⟨k, rfl, rfl⟩ | ⟨k, rfl, rfl⟩
    · exact versionText_nested_packets hp seen k h
    · exact versionText_nested_packets hp seen k h.symm
  · rintro (rfl | ⟨hp, hmarks⟩)
    · rfl
    · rcases pair hmarks with rfl | ⟨k, rfl, rfl⟩ | ⟨k, rfl, rfl⟩
      · rfl
      · exact versionText_nested_even ht hp seen k
      · exact (versionText_nested_even ht hp seen k).symm

/-- The version string of a packet with a single field. -/
theorem version_single (name field : String) (t : FieldType) :
    (⟨name, [(field, t)]⟩ : PacketSchema).version =
      name ++ "+" ++ field ++ ":" ++ versionText t [name] := by
  rw [PacketSchema.version, sortedEach, sortedEach, inWireOrder, List.mergeSort_singleton,
    spellFields, spellFields, (framed_spell _).text_eq]
  simp [put, enter, versionText, String.append_assoc]

/-- **Depths of sequences show in pairs.** A sequence of sequences has one mark and what its
elements hold. So of a type that is no sequence, any two depths have different texts if it is a
packet; else an odd depth and the even one behind it have the same, and all others differ. A further
layer is a further mark in front of the text only from an odd depth on. The versions of packets with
such a field differ where the texts do. -/
theorem depth_shows_in_pairs (ht : ∀ u, t ≠ array u) (seen : List String) :
    (∀ u, versionText (array (array u)) seen = "[]" ++ versionText u seen) ∧
    (∀ m n, versionText (nested t m) seen = versionText (nested t n) seen ↔
      m = n ∨ ¬ t.IsPacket ∧ (m + 1) / 2 = (n + 1) / 2) ∧
    (∀ n, versionText (nested t (n + 2)) seen = "[]" ++ versionText (nested t (n + 1)) seen ↔
      ¬ t.IsPacket ∧ n % 2 = 1) ∧
    ∀ name field m n,
      (⟨name, [(field, nested t m)]⟩ : PacketSchema).version =
          (⟨name, [(field, nested t n)]⟩ : PacketSchema).version ↔
        m = n ∨ ¬ t.IsPacket ∧ (m + 1) / 2 = (n + 1) / 2 := by
  refine ⟨fun u => versionText_array_array u seen, versionText_nested_eq_iff ht seen,
    fun n => ?_, fun name field m n => ?_⟩
  · rw [versionText_nested_add_two, append_right_inj_text, versionText_nested_eq_iff ht]
    constructor
    · rintro (h | ⟨hp, h⟩)
      · omega
      · exact ⟨hp, by omega⟩
    · exact fun ⟨hp, h⟩ => .inr ⟨hp, by omega⟩
  · rw [version_single, version_single, append_right_inj_text, versionText_nested_eq_iff ht]

/-- Sequences of five and six layers of numbers look the same. -/
theorem depth_shows_in_pairs_int :
    (∀ u, int ≠ array u) ∧
      versionText (nested int 5) ["P"] = versionText (nested int 6) ["P"] ∧
      versionText (nested int 6) ["P"] ≠ versionText (nested int 7) ["P"] := by
  have ht : ∀ u, int ≠ array u := nofun
  obtain ⟨-, texts, -⟩ := depth_shows_in_pairs ht ["P"]
  refine ⟨ht, (texts 5 6).2 (.inr ⟨nofun, rfl⟩), fun h => ?_⟩
  rcases (texts 6 7).1 h with h | ⟨-, h⟩ <;> cases h

/-- One layer of numbers and two are spelled alike, and so are packets with such fields: the text of
a sequence of sequences is no mark in front of the text of a sequence. -/
theorem depth_hidden :
    versionText (nested int 1) [] = "[]int" ∧ versionText (nested int 2) [] = "[]int" ∧
      versionText (array (array int)) [] ≠ "[]" ++ versionText (array int) [] ∧
      (⟨"P", [("a", array int)]⟩ : PacketSchema).hash =
        (⟨"P", [("a", array (array int))]⟩ : PacketSchema).hash := by
  refine ⟨by decide, by decide, by decide, ?_⟩
  rw [PacketSchema.hash, PacketSchema.hash, version_single, version_single]
  rfl

end FieldType
end PacketRpc
