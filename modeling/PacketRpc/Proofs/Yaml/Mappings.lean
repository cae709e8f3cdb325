import PacketRpc.Yaml.Document
import PacketRpc.Proofs.Number.Digits
import PacketRpc.Proofs.Yaml.Lines

/-!
# Mappings of mappings

The tokens of sections make a mapping whose values are mappings of scalars, so a text of such lines
is a document of these sections (`Document.ofText?_sections`), and a reader of the document finds
each setting under its keys.
-/

namespace PacketRpc.Yaml

/-- The key and the value that an entry is read as. -/
def Entry.nodes (e : Entry) : Node × Node :=
  (.scalar .plain none e.key, .scalar e.style none e.value)

/-- The key and the value that a section is read as. -/
def Section.nodes (s : Section) : Node × Node :=
  (.scalar .plain none s.key, .mapping (s.entries.map Entry.nodes))

/-! ## From tokens -/

namespace Node.Reader

@[simp] theorem tokens_goOn (r : Reader) (ts : List Token) : (r.goOn ts).tokens = ts := rfl

@[simp] theorem goOn_goOn (r : Reader) (ts us : List Token) :
    (r.goOn ts).goOn us = r.goOn us := rfl

theorem entryNode?_scalar (r : Reader) (style : Style) (text : List Char) (ts : List Token)
    (depth : Nat) :
    entryNode? (r.goOn (.scalar style text :: ts)) (depth + 2) =
      some (.scalar style none text, r.goOn ts) := rfl

theorem node?_mapping (afterKey : Bool) (r : Reader) (ts : List Token) (depth : Nat) :
    node? true afterKey (r.goOn (.blockMapping :: ts)) (depth + 1) =
      (blockEntries? (r.goOn ts) depth).map fun p => (.mapping p.1, p.2) := by
  rcases hs : blockEntries? (r.goOn ts) depth with _ | p
  all_goals
    cases afterKey <;> simp [node?, takeProperties?, takeName, takeTag?, Properties.name, hs]

theorem entryNode?_mapping (r : Reader) (ts : List Token) (depth : Nat) :
    entryNode? (r.goOn (.blockMapping :: ts)) (depth + 2) =
      (blockEntries? (r.goOn ts) depth).map fun p => (.mapping p.1, p.2) :=
  node?_mapping true r ts depth

theorem blockEntries?_key (r : Reader) (key : List Char) (ts : List Token) (depth : Nat) :
    blockEntries? (r.goOn (.key :: .scalar .plain key :: .value :: ts)) (depth + 3) =
      (entryNode? (r.goOn ts) (depth + 2)).bind fun v =>
        (blockEntries? v.2 (depth + 2)).map fun es =>
          ((.scalar .plain none key, v.1) :: es.1, es.2) := by
  rw [blockEntries?]
  rcases hv : entryNode? (r.goOn ts) (depth + 2) with _ | v
  · simp [entryNode?_scalar, hv]
  · rcases hs : blockEntries? v.2 (depth + 2) with _ | es <;> simp [entryNode?_scalar, hv, hs]

variable {depth : Nat}

theorem blockEntries?_end (r : Reader) (ts : List Token) (hd : 0 < depth) :
    blockEntries? (r.goOn (.blockEnd :: ts)) depth = some ([], r.goOn ts) := by
  obtain ⟨d, rfl⟩ := Nat.exists_eq_succ_of_ne_zero (Nat.ne_of_gt hd)
  rfl

theorem blockEntries?_entries (r : Reader) (es : List Entry) (ts : List Token)
    (hd : (es.flatMap Entry.tokens).length < depth) :
    blockEntries? (r.goOn (es.flatMap Entry.tokens ++ .blockEnd :: ts)) depth =
      some (es.map Entry.nodes, r.goOn ts) := by
  induction es generalizing depth with
  | nil => exact blockEntries?_end r ts hd
  | cons e es ih =>
    have hlen : e.tokens.length = 4 := rfl
    simp only [List.flatMap_cons, List.length_append, hlen] at hd
    obtain ⟨d, rfl⟩ : ∃ d, depth = d + 3 := ⟨depth - 3, by omega⟩
    have hrest := @ih (d + 2) (by omega)
    simp [Entry.tokens, blockEntries?_key, entryNode?_scalar, hrest, Entry.nodes]

theorem blockEntries?_sections (r : Reader) (ss : List Section) (ts : List Token)
    (hd : (ss.flatMap Section.tokens).length < depth) :
    blockEntries? (r.goOn (ss.flatMap Section.tokens ++ .blockEnd :: ts)) depth =
      some (ss.map Section.nodes, r.goOn ts) := by
  induction ss generalizing depth with
  | nil => exact blockEntries?_end r ts hd
  | cons s ss ih =>
    have hlen : s.tokens.length = (s.entries.flatMap Entry.tokens).length + 5 := by
      simp [Section.tokens]
    simp only [List.flatMap_cons, List.length_append, hlen] at hd
    obtain ⟨d, rfl⟩ : ∃ d, depth = d + 3 := ⟨depth - 3, by omega⟩
    have hrest := @ih (d + 2) (by omega)
    -- what the section takes leaves depth enough for its entries
    have hentries := blockEntries?_entries r s.entries
      (ss.flatMap Section.tokens ++ .blockEnd :: ts) (by omega : _ < d)
    simp [Section.tokens, blockEntries?_key, entryNode?_mapping, hentries, hrest, Section.nodes]

end Node.Reader

namespace Document

theorem ofTokens?_sections (ss : List Section) :
    ofTokens? (.blockMapping :: (ss.flatMap Section.tokens ++ [.blockEnd])) =
      some ⟨.mapping (ss.map Section.nodes)⟩ := by
  have hread (handles : List (List Char × List Char)) (depth : Nat)
      (hd : (ss.flatMap Section.tokens).length < depth) :
      Node.Reader.node? true false
        { tokens := .blockMapping :: (ss.flatMap Section.tokens ++ [.blockEnd]), handles }
        (depth + 1) = some (.mapping (ss.map Section.nodes), { tokens := [], handles }) := by
    refine (Node.Reader.node?_mapping false { tokens := [], handles } _ depth).trans ?_
    rw [Node.Reader.blockEntries?_sections _ ss [] hd]
    rfl
  have hhandles : ∃ handles, handles? [] = some handles := ⟨_, rfl⟩
  obtain ⟨handles, hhandles⟩ := hhandles
  have hroot : unmarked? (.blockMapping :: (ss.flatMap Section.tokens ++ [.blockEnd])) =
      some (.mapping (ss.map Section.nodes), []) := by
    rw [unmarked?, hhandles]
    simp only [Option.bind_eq_bind, Option.bind_some]
    rw [hread handles _ (by simp; omega)]
    rfl
  simp only [ofTokens?, directives, hroot, Option.bind_eq_bind, Option.bind_some]
  rfl

/-- **Lines of sections are a document of them.** -/
theorem ofText?_sections {s : Section} {ss : List Section} (hss : ∀ t ∈ s :: ss, t.Legible) :
    ofText? (String.ofList ((s :: ss).flatMap Section.lines)) =
      some ⟨.mapping ((s :: ss).map Section.nodes)⟩ := by
  rw [ofText?, tokens_of_sections hss, Option.bind_some, ofTokens?_sections]

/-! ## Entries of a document -/

variable (d : Document)

@[simp] theorem text?_scalar (style : Style) (tag : Option (List Char)) (text : List Char) :
    d.text? (.scalar style tag text) = some (String.ofList text) := rfl

/-- The entries of a mapping with plain keys. -/
theorem entries?_mapping {α : Type} (f : α → List Char) (g : α → Node) (as : List α) :
    d.entries? (.mapping (as.map fun a => (.scalar .plain none (f a), g a))) =
      some (as.map fun a => (String.ofList (f a), g a)) := by
  simp only [entries?, target]
  induction as with
  | nil => rfl
  | cons a as ih =>
    rw [List.map_cons, List.mapM_cons, ih]
    rfl

/-- What has no sign and no needless zero in front is read in decimal. -/
theorem number?_eq_whole? {c : Char} {cs : List Char} (hsign : c ≠ '+')
    (hzero : c = '0' → cs = []) :
    number? (c :: cs) = Digits.whole? 10 (c :: cs) := by
  by_cases hc : c = '0'
  · rw [hc, hzero hc]
    rfl
  · delta number?
    simp [marking?, hsign, hc]

/-- A number that is written out is the one read. -/
theorem number?_toDigits (n : Nat) : number? (Nat.toDigits 10 n) = some n := by
  obtain ⟨e, es, hchars, hlt, -, hz⟩ := Digits.exists_digits (by decide : 1 < 10) n
  have sign : ∀ e < 10, Nat.digitChar e ≠ '+' := by decide
  have zero : ∀ e < 10, Nat.digitChar e = '0' → e = 0 := by decide
  have he := hlt e List.mem_cons_self
  have hwhole := Digits.whole?_toDigits (by decide : 1 < 10) (by decide) n
  rw [hchars, List.map_cons] at hwhole ⊢
  rw [number?_eq_whole? (sign e he) fun h => by rw [hz (zero e he h)]; rfl, hwhole]

theorem unsigned?_toDigits {n bound : Nat} (h : n < bound) :
    d.unsigned? bound (.scalar .plain none (Nat.toDigits 10 n)) = some n := by
  simp [unsigned?, target, number?_toDigits, h]

end Document
end PacketRpc.Yaml
