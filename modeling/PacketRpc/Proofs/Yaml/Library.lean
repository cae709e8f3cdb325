import Mathlib.Data.List.Forall2
import PacketRpc.Proofs.Yaml.Mappings

/-!
# Libraries that read back what they write

What settings need of a library is that simple content, once written, reads back: the text is a
document with the same sections and entries, and each of these is read as what was written
(`Yaml.Library.ReadsBack`). How the text looks is no matter. The lines written here are those of
`Yaml.Section.lines`, so the library of documents reads back what it writes
(`Yaml.Document.readsBack_library`).
-/

namespace PacketRpc.Yaml

namespace Library

variable (lib : Library)

/-- A value reads as a datum, and a number does so at every width that has room for it. -/
def Holds (v : lib.Value) : Datum → Prop
  | .unsigned n =>
    (∀ m : UInt32, m.toNat = n → lib.uint32? v = some m) ∧
      ∀ m : UInt64, m.toNat = n → lib.uint64? v = some m
  | .text s => lib.text? v = some s

/-- A value reads as a mapping of these entries, whose values read as `R` says. -/
def HoldsEach {α : Type} (R : lib.Value → α → Prop) (v : lib.Value) (entries : List (String × α)) :
    Prop :=
  ∃ found, lib.entries? v = some found ∧
    List.Forall₂ (fun x e => x.1 = e.1 ∧ R x.2 e.2) found entries

/-- A value reads as content. -/
def HoldsContent (v : lib.Value) (c : Content) : Prop := lib.HoldsEach (lib.HoldsEach lib.Holds) v c

/-- Simple content is written, and what is written reads as this content. -/
def ReadsBack : Prop :=
  ∀ c : Content, c.isSimple = true → ∃ text v, lib.emit c = .ok text ∧ lib.parse? text = some v ∧
    lib.HoldsContent v c

end Library

/-! ## Simple content -/

theorem isVisible_of_isNameCharacter {c : Char} (h : isNameCharacter c = true) :
    isVisible c = true := by
  simp only [isNameCharacter, Bool.or_eq_true, beq_iff_eq] at h
  rcases h with (h | rfl) | rfl
  · exact isVisible_of_isAlphanum h
  · rfl
  · rfl

theorem word_of_isKey {key : String} (h : isKey key = true) : Word key.toList := by
  simp only [isKey, Bool.and_eq_true, Option.any_eq_true, List.all_eq_true] at h
  obtain ⟨⟨⟨c, hc, ha⟩, hall⟩, -⟩ := h
  refine ⟨fun d hd => isVisible_of_isNameCharacter (hall d hd), ⟨c, hc, ?_⟩, fun hl => ?_⟩
  · rw [Char.isAlphanum, ha, Bool.true_or]
  · cases hall ':' (List.mem_of_getLast? hl)

theorem width_of_isKey {key : String} (h : isKey key = true) : key.toList.length ≤ keyWidth := by
  simp only [isKey, Bool.and_eq_true, decide_eq_true_eq] at h
  rw [String.length_toList]
  exact Nat.le_trans h.2 (by decide)

section
variable {α : Type} {f : α → Bool} {entries : List (String × α)}

theorem ne_nil_of_isMapping (h : isMapping f entries = true) : entries ≠ [] := by
  rintro rfl
  cases h

theorem of_mem_of_isMapping (h : isMapping f entries = true) {e : String × α} (he : e ∈ entries) :
    isKey e.1 = true ∧ f e.2 = true := by
  simp only [isMapping, areKeys, Bool.and_eq_true, List.all_eq_true] at h
  exact ⟨h.1.2 e.1 (List.mem_map_of_mem he), h.2 e he⟩

end

/-! ## The lines that are written -/

theorem word_toDigits (n : Nat) : Word (Nat.toDigits 10 n) := by
  obtain ⟨d, ds, hchars, -, -, -⟩ := Digits.exists_digits (by decide : 1 < 10) n
  exact word_of_isAlphanum
    (fun _ hc => Digits.isAlphanum_of_mem_toDigits (by decide : 1 < 10) (by decide) hc)
    (by simp [hchars])

namespace Datum

/-- Whether a datum stands in quotes. -/
def isQuoted : Datum → Bool
  | unsigned _ => false
  | text s => !isPlain s.toList

/-- What a datum is spelled with. -/
def letters : Datum → List Char
  | unsigned n => Nat.toDigits 10 n
  | text s => s.toList

theorem isVisible_letters {d : Datum} (h : d.isSimple = true) :
    ∀ c ∈ d.letters, isVisible c = true := by
  cases d with
  | unsigned n => exact (word_toDigits n).visible
  | text s => exact List.all_eq_true.1 h

theorem word_letters {d : Datum} (h : d.isQuoted = false) : Word d.letters := by
  cases d with
  | unsigned n => exact word_toDigits n
  | text s =>
    rw [isQuoted, Bool.not_eq_false'] at h
    exact word_of_isPlain h

/-- The scalar that a datum is read as. -/
def node (d : Datum) : Node := .scalar (if d.isQuoted then .quoted else .plain) none d.letters

end Datum

def entryOf (e : String × Datum) : Entry := ⟨e.1.toList, e.2.isQuoted, e.2.letters⟩

def sectionOf (s : String × List (String × Datum)) : Section := ⟨s.1.toList, s.2.map entryOf⟩

theorem scalar_entryOf (e : String × Datum) : (entryOf e).scalar = e.2.written := by
  obtain ⟨key, n | s⟩ := e
  · rfl
  · cases hp : isPlain s.toList <;>
      simp [entryOf, Entry.scalar, Datum.isQuoted, Datum.letters, Datum.written, written, hp]

/-- Content is written as the lines of its sections. -/
theorem lines_eq (c : Content) : c.lines = (c.map sectionOf).flatMap Section.lines := by
  have hentries (es : List (String × Datum)) : entryLines es =
      (es.map entryOf).flatMap fun e => List.replicate 2 ' ' ++ e.line := by
    rw [List.flatMap_map, entryLines]
    congr 1
    funext e
    rw [Entry.line, scalar_entryOf]
    rfl
  rw [List.flatMap_map, Content.lines]
  congr 1
  funext s
  obtain ⟨key, es⟩ := s
  show _ ++ _ :: _ :: entryLines es = _
  rw [hentries]
  rfl

theorem legible_entryOf {e : String × Datum} (hk : isKey e.1 = true) (hd : e.2.isSimple = true) :
    (entryOf e).Legible where
  key := word_of_isKey hk
  width := width_of_isKey hk
  plain := Datum.word_letters
  quoted := Datum.isVisible_letters hd

theorem legible_sectionOf {s : String × List (String × Datum)} (hk : isKey s.1 = true)
    (hs : isMapping Datum.isSimple s.2 = true) : (sectionOf s).Legible where
  key := word_of_isKey hk
  width := width_of_isKey hk
  nonempty := by simpa [sectionOf] using ne_nil_of_isMapping hs
  entries := by
    intro f hf
    obtain ⟨e, he, rfl⟩ := List.mem_map.1 hf
    obtain ⟨hkey, hdatum⟩ := of_mem_of_isMapping hs he
    exact legible_entryOf hkey hdatum

/-! ## Reading back -/

namespace Document

/-- The text of content is the document of its sections. -/
theorem ofText?_lines {c : Content} (h : c.isSimple = true) :
    ofText? (String.ofList c.lines) = some ⟨.mapping ((c.map sectionOf).map Section.nodes)⟩ := by
  have hlegible : ∀ t ∈ c.map sectionOf, t.Legible := by
    intro t ht
    obtain ⟨s, hs, rfl⟩ := List.mem_map.1 ht
    obtain ⟨hkey, hsection⟩ := of_mem_of_isMapping h hs
    exact legible_sectionOf hkey hsection
  obtain ⟨s, ss, rfl⟩ := List.exists_cons_of_ne_nil (ne_nil_of_isMapping h)
  rw [lines_eq]
  exact ofText?_sections hlegible

variable (d : Document)

theorem holdsEach_mapping {α : Type} {R : library.Value → α → Prop} (f : α → Node)
    {entries : List (String × α)} (h : ∀ e ∈ entries, R (d, f e.2) e.2) :
    library.HoldsEach R
      (d, .mapping (entries.map fun e => (.scalar .plain none e.1.toList, f e.2))) entries := by
  refine ⟨entries.map fun e => (e.1, d, f e.2), ?_, ?_⟩
  · have he := d.entries?_mapping (fun e : String × α => e.1.toList) (fun e => f e.2) entries
    simp only [String.ofList_toList] at he
    show (d.entries? _).map _ = _
    rw [he, Option.map_some, List.map_map]
    rfl
  · rw [List.forall₂_map_left_iff, List.forall₂_same]
    exact fun e he => ⟨rfl, h e he⟩

theorem holds_node (e : Datum) : library.Holds (d, e.node) e := by
  cases e with
  | unsigned n =>
    -- a number that has come from a word of some width is below the bound of that width
    refine ⟨fun m hm => ?_, fun m hm => ?_⟩
    · show (d.unsigned? _ (.scalar .plain none (Nat.toDigits 10 n))).map _ = _
      rw [← hm, d.unsigned?_toDigits m.toNat_lt, Option.map_some, UInt32.ofNat_toNat]
    · show (d.unsigned? _ (.scalar .plain none (Nat.toDigits 10 n))).map _ = _
      rw [← hm, d.unsigned?_toDigits m.toNat_lt, Option.map_some, UInt64.ofNat_toNat]
  | text s => exact congrArg some String.ofList_toList

/-- **Documents read back as what was written.** -/
theorem readsBack_library : library.ReadsBack := by
  intro c hc
  let entriesNode (es : List (String × Datum)) : Node :=
    .mapping (es.map fun e => (.scalar .plain none e.1.toList, e.2.node))
  let root : Node := .mapping (c.map fun s => (.scalar .plain none s.1.toList, entriesNode s.2))
  have hsections : (c.map sectionOf).map Section.nodes =
      c.map fun s => (.scalar .plain none s.1.toList, entriesNode s.2) := by
    rw [List.map_map]
    refine List.map_congr_left fun s _ => ?_
    show (_, Node.mapping ((s.2.map entryOf).map Entry.nodes)) = _
    rw [List.map_map]
    rfl
  have hparse : library.parse? (String.ofList c.lines) = some (⟨root⟩, root) := by
    show (ofText? _).map _ = _
    rw [ofText?_lines hc, hsections, Option.map_some]
  refine ⟨_, _, if_pos hc, hparse, ?_⟩
  exact holdsEach_mapping ⟨root⟩ entriesNode fun s _ =>
    holdsEach_mapping ⟨root⟩ Datum.node fun e _ => holds_node ⟨root⟩ e.2

end Document
end PacketRpc.Yaml
