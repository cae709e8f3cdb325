import PacketRpc.Proofs.Packet.Hash
import PacketRpc.Proofs.Schema.Letters

/-!
# Version strings commit to shapes

A name ends where a mark stands (`plain_append_inj`), and the first letters of a type tell its kind
(`FieldType.kindOf_letters`): word, enumeration or packet, or a sequence of such. So types that are
spelled alike at the front of the same letters collapse alike and leave the same letters behind them
(`FieldType.legible`, by induction on the one of them, where the other must be of the same kind).

`PacketSchema.version_eq_iff`: well-named schemas have the same version string if and only if they
have the same shape.
-/

namespace PacketRpc

/-! ## Names end at marks -/

/-- The letters begin with a mark, if with any. -/
def Stops (cs : List Char) : Prop := ∀ c ∈ cs.head?, isMark c = true

theorem stops_nil : Stops [] := fun _ h => nomatch h

theorem stops_of_isMark {c : Char} (h : isMark c = true) (cs : List Char) : Stops (c :: cs) := by
  intro d hd
  cases hd
  exact h

section
variable {x y : String} {cs ds : List Char}

theorem dropWhile_plain (hx : Plain x) (hc : Stops cs) :
    (x.toList ++ cs).dropWhile (fun c => !isMark c) = cs := by
  rw [List.dropWhile_append_of_pos fun c h => by rw [hx.2 c h]; rfl]
  cases cs with
  | nil => rfl
  | cons c cs => rw [List.dropWhile_cons_of_neg (by simp [hc c rfl])]

theorem plain_append_inj (hx : Plain x) (hy : Plain y) (hc : Stops cs) (hd : Stops ds)
    (h : x.toList ++ cs = y.toList ++ ds) : x = y ∧ cs = ds := by
  have hcd : cs = ds := by rw [← dropWhile_plain hx hc, h, dropWhile_plain hy hd]
  subst hcd
  exact ⟨String.toList_inj.1 (List.append_cancel_right h), rfl⟩

end

/-! ## The parts of a type -/

/-- The letters of members, each behind its mark. -/
def EnumSchema.memberLetters (ms : List String) : List Char := ms.flatMap fun m => '+' :: m.toList

theorem EnumSchema.memberLetters_cons (m : String) (ms : List String) :
    memberLetters (m :: ms) = '+' :: (m.toList ++ memberLetters ms) := List.flatMap_cons

theorem EnumSchema.toList_version (e : EnumSchema) :
    e.version.toList = '{' :: (e.name.toList ++ (memberLetters e.members ++ ['}'])) := by
  simp [version, memberLetters, String.toList_join, List.flatMap_map]

namespace FieldType

open EnumSchema (memberLetters memberLetters_cons)

variable {t t' : FieldType} {name : String} {fields fields' : List (String × FieldType)}
  {seen : List String} {cs ds : List Char}

theorem letters_word (h : Word t) : letters t seen = t.primitiveName.toList := by
  cases h <;> rfl

theorem plain_primitiveName (h : Word t) : Plain t.primitiveName := by
  cases h <;> decide

/-- The types without parts. -/
def words : List FieldType :=
  [bool, byte, ubyte, short, ushort, int, long, float, double, string, packet]

theorem find?_words (h : Word t) :
    words.find? (fun u => u.primitiveName == t.primitiveName) = some t := by
  cases h <;> rfl

theorem word_inj (h : Word t) (h' : Word t') (he : t.primitiveName = t'.primitiveName) :
    t = t' := by
  have ht := find?_words h
  rw [he, find?_words h'] at ht
  exact (Option.some.inj ht).symm

theorem stops_members (ms : List String) (cs : List Char) :
    Stops (memberLetters ms ++ '}' :: cs) := by
  cases ms <;> exact stops_of_isMark rfl _

theorem members_inj {ms ns : List String} (hm : ∀ m ∈ ms, Plain m) (hn : ∀ m ∈ ns, Plain m)
    (h : memberLetters ms ++ '}' :: cs = memberLetters ns ++ '}' :: ds) : ms = ns ∧ cs = ds := by
  induction ms generalizing ns with
  | nil =>
    cases ns with
    | nil => exact ⟨rfl, (List.cons.inj h).2⟩
    | cons n ns => cases (List.cons.inj h).1
  | cons m ms ih =>
    cases ns with
    | nil => cases (List.cons.inj h).1
    | cons n ns =>
      simp only [memberLetters_cons, List.cons_append, List.append_assoc] at h
      obtain ⟨rfl, hr⟩ := plain_append_inj (hm m List.mem_cons_self) (hn n List.mem_cons_self)
        (stops_members ms cs) (stops_members ns ds) (List.cons.inj h).2
      obtain ⟨rfl, rfl⟩ := ih (fun m hm' => hm m (List.mem_cons_of_mem _ hm'))
        (fun n hn' => hn n (List.mem_cons_of_mem _ hn')) hr
      exact ⟨rfl, rfl⟩

theorem stops_fields (fields : List (String × FieldType)) (seen : List String) (cs : List Char) :
    Stops (lettersEach fields seen ++ '}' :: cs) := by
  cases fields <;> exact stops_of_isMark rfl _

/-- Behind the name of a packet stands a mark. -/
theorem stops_packet (name : String) (fields : List (String × FieldType)) (seen : List String)
    (cs : List Char) :
    Stops ((if seen.contains name then "+...".toList else lettersEach fields (name :: seen)) ++
      '}' :: cs) := by
  split
  · exact stops_of_isMark rfl _
  · exact stops_fields _ _ cs

theorem letters_ne_nil (h : t.WellNamed) : letters t seen ≠ [] := by
  cases h with
  | word h => cases h <;> exact List.cons_ne_nil _ _
  | enumeration =>
    rw [letters, EnumSchema.toList_version]
    exact List.cons_ne_nil _ _
  | embedded => exact List.cons_ne_nil _ _
  | array =>
    rw [letters, mark.eq_def]
    split <;> exact List.cons_ne_nil _ _

theorem mark_inj {k : Kind} {xs ys : List Char} (hx : xs ≠ []) (hy : ys ≠ [])
    (h : mark k xs ++ cs = mark k ys ++ ds) : xs ++ cs = ys ++ ds := by
  obtain ⟨x, xs, rfl⟩ := List.exists_cons_of_ne_nil hx
  obtain ⟨y, ys, rfl⟩ := List.exists_cons_of_ne_nil hy
  cases k <;> simpa [mark] using h

/-! ## Kinds are told by letters -/

/-- What the letters behind a brace and two names tell of the kind. -/
def kindBehindTwo : List Char → Bool × Kind
  | ':' :: _ | '.' :: _ => (false, .packet)
  | _ => (false, .enumeration)

/-- What the letters behind a brace and a name tell of the kind. -/
def kindBehind : List Char → Bool × Kind
  | '[' :: _ => (true, .packet)
  | '+' :: cs => kindBehindTwo (cs.dropWhile fun c => !isMark c)
  | _ => (false, .packet)

/-- What the first letters of a type tell of its kind. -/
def kindOf : List Char → Bool × Kind
  | '[' :: ']' :: '{' :: _ => (true, .enumeration)
  | '[' :: _ => (true, .word)
  | '{' :: cs => kindBehind (cs.dropWhile fun c => !isMark c)
  | _ => (false, .word)

theorem kindOf_brace (hn : Plain name) (hc : Stops cs) :
    kindOf ('{' :: (name.toList ++ cs)) = kindBehind cs := by
  show kindBehind _ = _
  rw [dropWhile_plain hn hc]

theorem kindBehind_plus (hn : Plain name) (hc : Stops cs) :
    kindBehind ('+' :: (name.toList ++ cs)) = kindBehindTwo cs := by
  rw [kindBehind, dropWhile_plain hn hc]

theorem kindOf_enumeration {e : EnumSchema} (plain : Plain e.name) (ne_nil : e.members ≠ [])
    (members : ∀ m ∈ e.members, Plain m) :
    kindOf (e.version.toList ++ cs) = (false, .enumeration) := by
  obtain ⟨m, ms, hm⟩ := List.exists_cons_of_ne_nil ne_nil
  have hp : Plain m := members m (hm ▸ List.mem_cons_self)
  simp only [EnumSchema.toList_version, hm, memberLetters_cons, List.cons_append,
    List.append_assoc, List.nil_append]
  rw [kindOf_brace plain (stops_of_isMark rfl _), kindBehind_plus hp (stops_members ms cs)]
  cases ms <;> rfl

theorem kindOf_packet (plain : Plain name) (names : ∀ f ∈ fields, Plain f.1) :
    kindOf (letters (embedded name fields) seen ++ cs) = (false, .packet) := by
  simp only [letters, List.cons_append, List.append_assoc, List.nil_append]
  rw [kindOf_brace plain (stops_packet name fields seen cs)]
  split
  · rfl
  · cases fields with
    | nil => rfl
    | cons f fields =>
      simp only [lettersEach, List.cons_append, List.append_assoc]
      exact kindBehind_plus (names f List.mem_cons_self) (stops_of_isMark rfl _)

/-- The first letters of a well-named type tell its kind. -/
theorem kindOf_letters (h : t.WellNamed) : kindOf (letters t seen ++ cs) = t.kind := by
  cases h with
  | word h => cases h <;> rfl
  | enumeration plain ne_nil members => exact kindOf_enumeration plain ne_nil members
  | embedded plain distinct names types => exact kindOf_packet plain names
  | @array t element flat =>
    cases element with
    | word h => cases h <;> rfl
    | @enumeration e plain ne_nil members =>
      show kindOf ('[' :: ']' :: (e.version.toList ++ cs)) = _
      rw [EnumSchema.toList_version]
      rfl
    | embedded => rfl
    | array => exact absurd rfl (flat _)

theorem kind_eq_of_letters (h : t.WellNamed) (h' : t'.WellNamed)
    (he : letters t seen ++ cs = letters t' seen ++ ds) : t'.kind = t.kind := by
  rw [← kindOf_letters h, he, kindOf_letters h']

theorem word_of_kind (h : t.kind = (false, .word)) : Word t := by
  cases t
  case enumeration | embedded | array => cases h
  all_goals constructor

theorem enumeration_of_kind (h : t.kind = (false, .enumeration)) : ∃ e, t = enumeration e := by
  cases t
  case enumeration e => exact ⟨e, rfl⟩
  all_goals cases h

theorem embedded_of_kind (h : t.kind = (false, .packet)) :
    ∃ name fields, t = embedded name fields := by
  cases t
  case embedded name fields => exact ⟨name, fields, rfl⟩
  all_goals cases h

theorem array_of_kind {k : Kind} (h : t.kind = (true, k)) : ∃ u, t = array u ∧ u.kind.2 = k := by
  cases t
  case array u => exact ⟨u, rfl, (Prod.mk.inj h).2⟩
  all_goals cases h

/-! ## Types are legible -/

/-- What is spelled like `t` at the front of some letters collapses like `t`, and the same letters
stand behind it. -/
def Legible (t : FieldType) : Prop :=
  ∀ ⦃t' : FieldType⦄, t'.WellNamed → ∀ ⦃seen cs ds⦄, Stops cs → Stops ds →
    letters t seen ++ cs = letters t' seen ++ ds → collapse t seen = collapse t' seen ∧ cs = ds

theorem legible_word (h : Word t) : Legible t := by
  intro t' h' seen cs ds hc hd he
  have hk := kind_eq_of_letters (.word h) h' he
  have hw : Word t' := word_of_kind (hk.trans (by cases h <;> rfl))
  rw [letters_word h, letters_word hw] at he
  obtain ⟨hn, hcd⟩ := plain_append_inj (plain_primitiveName h) (plain_primitiveName hw) hc hd he
  rw [word_inj h hw hn]
  exact ⟨rfl, hcd⟩

theorem legible_enumeration {e : EnumSchema} (plain : Plain e.name) (ne_nil : e.members ≠ [])
    (members : ∀ m ∈ e.members, Plain m) : Legible (enumeration e) := by
  intro t' h' seen cs ds _ _ he
  obtain ⟨e', rfl⟩ :=
    enumeration_of_kind (kind_eq_of_letters (.enumeration plain ne_nil members) h' he)
  cases h' with
  | word h => cases h
  | enumeration plain' ne_nil' members' =>
    simp only [letters, EnumSchema.toList_version, List.cons_append, List.append_assoc] at he
    obtain ⟨hn, hr⟩ := plain_append_inj plain plain' (stops_members _ cs) (stops_members _ ds)
      (List.cons.inj he).2
    obtain ⟨hm, hcd⟩ := members_inj members members' hr
    have hee : e = e' := by
      cases e
      cases e'
      exact congr (congrArg EnumSchema.mk hn) hm
    rw [hee]
    exact ⟨rfl, hcd⟩

theorem legible_fields (names : ∀ f ∈ fields, Plain f.1) (h : ∀ f ∈ fields, Legible f.2)
    (names' : ∀ f ∈ fields', Plain f.1) (types' : ∀ f ∈ fields', f.2.WellNamed)
    (he : lettersEach fields seen ++ '}' :: cs = lettersEach fields' seen ++ '}' :: ds) :
    collapseEach fields seen = collapseEach fields' seen ∧ cs = ds := by
  induction fields generalizing fields' seen with
  | nil =>
    cases fields' with
    | nil => exact ⟨rfl, (List.cons.inj he).2⟩
    | cons f' fields' => cases (List.cons.inj he).1
  | cons f fields ih =>
    cases fields' with
    | nil => cases (List.cons.inj he).1
    | cons f' fields' =>
      obtain ⟨name, t⟩ := f
      obtain ⟨name', t'⟩ := f'
      simp only [List.forall_mem_cons] at names h names' types'
      simp only [lettersEach, List.cons_append, List.append_assoc] at he
      obtain ⟨rfl, hr⟩ := plain_append_inj names.1 names'.1 (stops_of_isMark rfl _)
        (stops_of_isMark rfl _) (List.cons.inj he).2
      obtain ⟨ht, hr⟩ := h.1 types'.1 (stops_fields _ _ cs) (stops_fields _ _ ds)
        (List.cons.inj hr).2
      -- the same names have been met behind the types, so that the other fields compare
      rw [ht] at hr
      obtain ⟨hfs, hcd⟩ := ih names.2 h.2 names'.2 types'.2 hr
      exact ⟨by simp only [collapseEach, ht, hfs], hcd⟩

theorem legible_packet (plain : Plain name) (distinct : (fields.map Prod.fst).Nodup)
    (names : ∀ f ∈ fields, Plain f.1) (types : ∀ f ∈ fields, f.2.WellNamed)
    (h : ∀ f ∈ fields, Legible f.2) : Legible (embedded name fields) := by
  intro t' h' seen cs ds _ _ he
  obtain ⟨name', fields', rfl⟩ :=
    embedded_of_kind (kind_eq_of_letters (.embedded plain distinct names types) h' he)
  cases h' with
  | word h => cases h
  | embedded plain' distinct' names' types' =>
    simp only [letters, List.cons_append, List.append_assoc, List.nil_append] at he
    obtain ⟨rfl, hr⟩ := plain_append_inj plain plain' (stops_packet _ fields _ cs)
      (stops_packet _ fields' _ ds) (List.cons.inj he).2
    -- the same names have been met, so that both are cut short or neither is
    by_cases hs : name ∈ seen
    · rw [collapse_of_seen hs, collapse_of_seen hs]
      rw [if_pos (List.contains_iff_mem.2 hs), if_pos (List.contains_iff_mem.2 hs)] at hr
      exact ⟨rfl, (List.cons.inj (List.append_cancel_left hr)).2⟩
    · have hn : ¬ seen.contains name = true := fun hc => hs (List.contains_iff_mem.1 hc)
      rw [if_neg hn, if_neg hn] at hr
      obtain ⟨hf, hcd⟩ := legible_fields names h names' types' hr
      rw [collapse_of_not_seen hs, collapse_of_not_seen hs, hf]
      exact ⟨rfl, hcd⟩

theorem legible_array (ht : t.WellNamed) (flat : ∀ u, t ≠ array u) (h : Legible t) :
    Legible (array t) := by
  intro t' h' seen cs ds hc hd he
  obtain ⟨u, rfl, hk⟩ := array_of_kind (kind_eq_of_letters (.array ht flat) h' he)
  cases h' with
  | word h => cases h
  | array hu flat' =>
    -- the mark stands at the same place in both
    rw [letters, letters, hk] at he
    obtain ⟨hcoll, hcd⟩ := h hu hc hd (mark_inj (letters_ne_nil ht) (letters_ne_nil hu) he)
    refine ⟨?_, hcd⟩
    rw [collapse, collapse, hcoll]

/-- **Well-named types are legible.** -/
theorem legible (h : t.WellNamed) : Legible t := by
  induction h with
  | word h => exact legible_word h
  | enumeration plain ne_nil members => exact legible_enumeration plain ne_nil members
  | embedded plain distinct names types ih => exact legible_packet plain distinct names types ih
  | array element flat ih => exact legible_array element flat ih

end FieldType

/-! ## Hashes -/

/-- The bytes of which a hash is made. -/
def halfDigest (text : String) : List UInt8 := (Digest.md5 text.toUTF8.data.toList).take 8

theorem length_halfDigest (text : String) : (halfDigest text).length = 8 := by
  simp [halfDigest, Digest.md5, Digest.littleEndian]

/-! ## Version strings -/

namespace PacketSchema

variable {a b : PacketSchema}

theorem version_eq_iff_shape (ha : a.WellNamed) (hb : b.WellNamed) :
    a.version = b.version ↔ a.shape = b.shape := by
  rw [shape, shape]
  constructor
  · intro h
    -- compared as embedded packets, both end with a brace
    have hl : a.embed.sorted.letters [] ++ [] = b.embed.sorted.letters [] ++ [] := by
      rw [← toList_version ha, ← toList_version hb, h]
    have ha' : a.embed.sorted.WellNamed := FieldType.WellNamed.sorted ha
    have hb' : b.embed.sorted.WellNamed := FieldType.WellNamed.sorted hb
    rw [(FieldType.legible ha' hb' stops_nil stops_nil hl).1]
  · intro h
    have hl : a.embed.sorted.letters [] = b.embed.sorted.letters [] := by
      rw [← FieldType.letters_collapse, h, FieldType.letters_collapse]
    rw [← toList_version ha, ← toList_version hb] at hl
    exact String.toList_inj.1 (List.append_cancel_right (List.cons.inj hl).2)

/-- **Version strings commit to shapes.** Well-named schemas have the same version string if and
only if they have the same shape; where no packet name comes twice in them, if and only if they are
the same in wire order. Where they have the same hash they have the same shape, unless two version
strings agree in the first half of their digests. -/
theorem version_eq_iff (ha : a.WellNamed) (hb : b.WellNamed) :
    (a.version = b.version ↔ a.shape = b.shape) ∧
    (a.Unrepeated → b.Unrepeated →
      (a.version = b.version ↔ a.embed.sorted = b.embed.sorted)) ∧
    (a.hash = b.hash → a.shape = b.shape ∨
      a.version ≠ b.version ∧ halfDigest a.version = halfDigest b.version) := by
  have hs := version_eq_iff_shape ha hb
  refine ⟨hs, fun hu hv => ?_, fun hh => ?_⟩
  · rw [hs, shape_of_unrepeated hu, shape_of_unrepeated hv]
  · by_cases hv : a.version = b.version
    · exact .inl (hs.1 hv)
    · have hd : (PacketHash.ofBytes (halfDigest a.version)).toBytes =
          (PacketHash.ofBytes (halfDigest b.version)).toBytes := congrArg PacketHash.toBytes hh
      rw [PacketHash.toBytes_ofBytes (length_halfDigest _),
        PacketHash.toBytes_ofBytes (length_halfDigest _)] at hd
      exact .inr ⟨hv, hd⟩

/-- Two packets that embed one packet twice, and differ in the order of their fields and in what
the embedded packet holds where it comes again. -/
theorem version_eq_iff_repeated :
    let a : PacketSchema := ⟨"Pair", [("x", .embedded "Inner" [("value", .int)]),
      ("y", .array (.embedded "Inner" [("value", .int)]))]⟩
    let b : PacketSchema := ⟨"Pair", [("y", .array (.embedded "Inner" [])),
      ("x", .embedded "Inner" [("value", .int)])]⟩
    (a.WellNamed ∧ b.WellNamed) ∧
    (a.version = b.version ↔ a.shape = b.shape) ∧
    (a.Unrepeated → b.Unrepeated →
      (a.version = b.version ↔ a.embed.sorted = b.embed.sorted)) ∧
    (a.hash = b.hash → a.shape = b.shape ∨
      a.version ≠ b.version ∧ halfDigest a.version = halfDigest b.version) := by
  intro a b
  have hv : (FieldType.embedded "Inner" [("value", .int)]).WellNamed :=
    .embedded (by decide) (by decide) (by decide)
      (List.forall_mem_singleton.2 (.word .int))
  have hn : (FieldType.embedded "Inner" []).WellNamed :=
    .embedded (by decide) (by decide) (by decide) (List.forall_mem_nil _)
  have ha : a.WellNamed := .embedded (by decide) (by decide) (by decide)
    (List.forall_mem_cons.2 ⟨hv, List.forall_mem_singleton.2 (.array hv fun _ h => by cases h)⟩)
  have hb : b.WellNamed := .embedded (by decide) (by decide) (by decide)
    (List.forall_mem_cons.2 ⟨.array hn (fun _ h => by cases h), List.forall_mem_singleton.2 hv⟩)
  exact ⟨⟨ha, hb⟩, version_eq_iff ha hb⟩

end PacketSchema
end PacketRpc
