import PacketRpc.Proofs.Schema.Shape

/-!
# The letters of a type

`FieldType.letters t seen` is what is spelled of `t` where the packet names `seen` have been met, so
that version strings are made of letters only (`FieldType.spells_of_wellNamed`,
`PacketSchema.toList_version`). What is collapsed has the letters it had before
(`FieldType.letters_collapse`): the fields that are erased are not spelled.
-/

namespace PacketRpc

namespace FieldType

/-! ## Kinds -/

/-- The types without parts, the enumerations and the packets. -/
inductive Kind
  | word
  | enumeration
  | packet

/-- Whether a type is a sequence, and the kind of it or of its elements. -/
def kind : FieldType → Bool × Kind
  | enumeration _ => (false, .enumeration)
  | embedded .. => (false, .packet)
  | array t => (true, (kind t).2)
  | _ => (false, .word)

/-! ## Letters -/

/-- Puts the mark of a sequence to the letters of its elements: inside the braces of packets, and in
front of all else. -/
def mark : Kind → List Char → List Char
  | .packet, c :: cs => c :: '[' :: ']' :: cs
  | _, cs => '[' :: ']' :: cs

mutual

/-- What is spelled of a type where `seen` have been met. -/
def letters : FieldType → (seen : List String) → List Char
  | enumeration e, _ => e.version.toList
  | embedded name fields, seen =>
    '{' :: (name.toList ++
      ((if seen.contains name then "+...".toList else lettersEach fields (name :: seen)) ++ ['}']))
  | array t, seen => mark (kind t).2 (letters t seen)
  | t, _ => t.primitiveName.toList

/-- What is spelled of fields one after another. -/
def lettersEach : List (String × FieldType) → (seen : List String) → List Char
  | [], _ => []
  | (name, t) :: fields, seen =>
    '+' :: (name.toList ++ ':' :: (letters t seen ++ lettersEach fields (collapse t seen).2))

end

end FieldType

/-! ## Spelling -/

/-- Goes on with letters, behind which the names `seen` have been met. -/
def Spelling.followed (s : Spelling) (cs : List Char) (seen : List String) : Spelling :=
  ⟨s.text ++ String.ofList cs, seen⟩

namespace Spelling

variable {s : Spelling}

theorem put_eq (text : String) : s.put text = s.followed text.toList s.seen := by
  rw [put, followed, String.ofList_toList]

theorem followed_followed (cs ds : List Char) (seen seen' : List String) :
    (s.followed cs seen).followed ds seen' = s.followed (cs ++ ds) seen' := by
  simp [followed, String.append_assoc, String.ofList_append]

end Spelling

namespace FieldType

variable {t : FieldType} {name : String} {fields : List (String × FieldType)} {seen : List String}

/-- A type is spelled by its letters. -/
def Spells (t : FieldType) : Prop :=
  ∀ s : Spelling, spell t s = s.followed (letters t s.seen) (collapse t s.seen).2

theorem spellFields_eq (h : ∀ f ∈ fields, Spells f.2) (s : Spelling) :
    spellFields fields s =
      s.followed (lettersEach fields s.seen) (collapseEach fields s.seen).2 := by
  induction fields generalizing s with
  | nil => simp [spellFields, lettersEach, collapseEach, Spelling.followed]
  | cons f fields ih =>
    rw [spellFields, ih (fun g hg => h g (List.mem_cons_of_mem f hg)), h f List.mem_cons_self,
      Spelling.put_eq, Spelling.followed_followed, Spelling.followed_followed]
    simp [lettersEach, collapseEach, Spelling.followed]

/-- Packets are spelled by their letters, with the mark of a sequence, if there is one, behind the
brace. -/
theorem packet_eq (h : ∀ f ∈ fields, Spells f.2) (s : Spelling) (text : String) :
    s.packet text name (spellFields fields) =
      s.followed ('{' :: (text.toList ++ (letters (embedded name fields) s.seen).tail))
        (collapse (embedded name fields) s.seen).2 := by
  by_cases hs : name ∈ s.seen
  · rw [Spelling.packet, if_pos (List.contains_iff_mem.2 hs), Spelling.put_eq, collapse_of_seen hs]
    simp [letters, hs]
  · have hn : ¬ s.seen.contains name = true := fun hc => hs (List.contains_iff_mem.1 hc)
    rw [Spelling.packet, if_neg hn, spellFields_eq h, collapse_of_not_seen hs]
    simp [letters, hs, Spelling.followed, Spelling.enter, Spelling.put, String.ofList_append,
      String.append_assoc, String.ofList_cons]

/-- A well-named type is spelled by its letters, and so is a sequence of such. -/
theorem spells_of_wellNamed (h : t.WellNamed) :
    Spells t ∧ ((∀ u, t ≠ array u) → Spells (array t)) := by
  -- a sequence of packets is spelled by way of their fields, which only the packets' case has
  induction h with
  | word h => cases h <;> exact ⟨fun _ => Spelling.put_eq _, fun _ _ => Spelling.put_eq _⟩
  | @enumeration e plain ne_nil members =>
    refine ⟨fun _ => Spelling.put_eq _, fun _ s => (Spelling.put_eq _).trans ?_⟩
    rw [String.toList_append]
    rfl
  | @embedded name fields plain distinct names types ih =>
    have hf : ∀ f ∈ fields, Spells f.2 := fun f hf => (ih f hf).1
    exact ⟨fun s => packet_eq hf s "", fun _ s => packet_eq hf s "[]"⟩
  | array element flat ih => exact ⟨ih.2 flat, fun h => absurd rfl (h _)⟩

end FieldType

/-- The version string of a packet is what is spelled of it in a field, without the braces. -/
theorem PacketSchema.toList_version {s : PacketSchema} (h : s.WellNamed) :
    '{' :: (s.version.toList ++ ['}']) = s.embed.sorted.letters [] := by
  have hw : s.embed.sorted.WellNamed := FieldType.WellNamed.sorted h
  rw [embed, FieldType.sorted] at hw
  cases hw with
  | word h => cases h
  | embedded plain distinct names types =>
    have hf := fun f hf => (FieldType.spells_of_wellNamed (types f hf)).1
    rw [version, FieldType.spellFields_eq hf, embed, FieldType.sorted, FieldType.letters]
    simp [Spelling.followed, Spelling.enter]

/-! ## Letters of what is collapsed -/

namespace FieldType

variable {fields : List (String × FieldType)} {seen : List String}

theorem kind_collapse (t : FieldType) (seen : List String) : (collapse t seen).1.kind = t.kind := by
  induction t with
  | embedded name fields =>
    by_cases h : name ∈ seen
    · rw [collapse_of_seen h]
      rfl
    · rw [collapse_of_not_seen h]
      rfl
  | array t ih =>
    show (true, (collapse t seen).1.kind.2) = _
    rw [ih]
    rfl
  | _ => rfl

theorem lettersEach_collapseEach
    (h : ∀ f ∈ fields, ∀ seen, letters (collapse f.2 seen).1 seen = letters f.2 seen) :
    lettersEach (collapseEach fields seen).1 seen = lettersEach fields seen := by
  induction fields generalizing seen with
  | nil => rfl
  | cons f fields ih =>
    simp only [collapseEach, lettersEach, h f List.mem_cons_self, collapse_collapse,
      ih fun g hg => h g (List.mem_cons_of_mem f hg)]

/-- What is collapsed is spelled as before. -/
theorem letters_collapse (t : FieldType) (seen : List String) :
    letters (collapse t seen).1 seen = letters t seen := by
  induction t generalizing seen with
  | embedded name fields ih =>
    by_cases h : name ∈ seen
    · rw [collapse_of_seen h]
      simp [letters, h]
    · rw [collapse_of_not_seen h]
      simp [letters, h, lettersEach_collapseEach ih]
  | array t ih =>
    show mark (collapse t seen).1.kind.2 (letters (collapse t seen).1 seen) = _
    rw [kind_collapse, ih]
    rfl
  | _ => rfl

end FieldType
end PacketRpc
