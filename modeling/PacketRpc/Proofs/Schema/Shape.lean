import Mathlib.Data.List.Perm.Basic
import PacketRpc.Schema.Version

/-!
# Shapes

The shape of a packet is what is left of its schema when the fields of every packet have been put
in wire order and then, walking in that order, an embedded packet whose name has been met is left
without its fields (`FieldType.collapse`, `PacketSchema.shape`). To collapse once is enough
(`FieldType.collapse_collapse`), and nothing collapses where no packet name comes twice
(`FieldType.collapse_of_nodup`).

A schema is well named when its names have none of the marks that version strings put between them,
an enumeration has a member, and no sequence has sequences as elements (`FieldType.WellNamed`).
Wire order keeps that (`FieldType.WellNamed.sorted`).
-/

namespace PacketRpc

/-! ## Names -/

/-- The marks that stand between the names of a version string. -/
def isMark (c : Char) : Bool := ['+', ':', '{', '}', '[', ']', '.'].contains c

/-- A name that is not empty and has no marks. -/
def Plain (name : String) : Prop := name ≠ "" ∧ ∀ c ∈ name.toList, isMark c = false

instance (name : String) : Decidable (Plain name) :=
  decidable_of_iff (name ≠ "" ∧ name.toList.all (fun c => !isMark c) = true) (by
    rw [Plain, List.all_eq_true]
    simp only [Bool.not_eq_true'])

namespace FieldType

/-- A type without parts, which is spelled by one word. -/
inductive Word : FieldType → Prop
  | bool : Word bool
  | byte : Word byte
  | ubyte : Word ubyte
  | short : Word short
  | ushort : Word ushort
  | int : Word int
  | long : Word long
  | float : Word float
  | double : Word double
  | string : Word string
  | packet : Word packet

/-- All names in the type are plain, those of the fields of a packet are distinct, enumerations have
members, and sequences have no sequences as elements. -/
inductive WellNamed : FieldType → Prop
  | word {t : FieldType} (h : Word t) : WellNamed t
  | enumeration {e : EnumSchema} (plain : Plain e.name) (ne_nil : e.members ≠ [])
    (members : ∀ m ∈ e.members, Plain m) : WellNamed (enumeration e)
  | embedded {name : String} {fields : List (String × FieldType)} (plain : Plain name)
    (distinct : (fields.map Prod.fst).Nodup) (names : ∀ f ∈ fields, Plain f.1)
    (types : ∀ f ∈ fields, WellNamed f.2) : WellNamed (embedded name fields)
  | array {t : FieldType} (element : WellNamed t) (flat : ∀ u, t ≠ array u) : WellNamed (array t)

/-! ## Walks -/

mutual

/-- The type without the fields of packets whose names have been met, where `seen` have been met
before it, and the names that have been met behind it. -/
def collapse : FieldType → (seen : List String) → FieldType × List String
  | embedded name fields, seen =>
    if seen.contains name then (embedded name [], seen)
    else
      let fields := collapseEach fields (name :: seen)
      (embedded name fields.1, fields.2)
  | array t, seen =>
    let t := collapse t seen
    (array t.1, t.2)
  | t, seen => (t, seen)

/-- The fields with their types collapsed one after another, and the names met behind them. -/
def collapseEach :
    List (String × FieldType) → (seen : List String) → List (String × FieldType) × List String
  | [], seen => ([], seen)
  | (name, t) :: fields, seen =>
    let t := collapse t seen
    let fields := collapseEach fields t.2
    ((name, t.1) :: fields.1, fields.2)

end

mutual

/-- The names of the packets in a type, each as often as it occurs. -/
def packetNames : FieldType → List String
  | embedded name fields => name :: packetNamesEach fields
  | array t => packetNames t
  | _ => []

/-- The names of the packets in the types of fields. -/
def packetNamesEach : List (String × FieldType) → List String
  | [] => []
  | (_, t) :: fields => packetNames t ++ packetNamesEach fields

end

variable {name : String} {fields : List (String × FieldType)} {seen : List String}

theorem collapse_of_seen (h : name ∈ seen) :
    collapse (embedded name fields) seen = (embedded name [], seen) := by
  rw [collapse, if_pos (List.contains_iff_mem.2 h)]

theorem collapse_of_not_seen (h : name ∉ seen) :
    collapse (embedded name fields) seen =
      (embedded name (collapseEach fields (name :: seen)).1,
        (collapseEach fields (name :: seen)).2) := by
  rw [collapse, if_neg fun hc => h (List.contains_iff_mem.1 hc)]

theorem collapseEach_collapseEach
    (h : ∀ f ∈ fields, ∀ seen, collapse (collapse f.2 seen).1 seen = collapse f.2 seen) :
    collapseEach (collapseEach fields seen).1 seen = collapseEach fields seen := by
  induction fields generalizing seen with
  | nil => rfl
  | cons f fields ih =>
    simp only [collapseEach, h f List.mem_cons_self,
      ih fun g hg => h g (List.mem_cons_of_mem f hg)]

/-- What is collapsed does not collapse further, and the same names are met in it. -/
theorem collapse_collapse (t : FieldType) (seen : List String) :
    collapse (collapse t seen).1 seen = collapse t seen := by
  induction t generalizing seen with
  | embedded name fields ih =>
    by_cases h : name ∈ seen
    · rw [collapse_of_seen h, collapse_of_seen h]
    · rw [collapse_of_not_seen h, collapse_of_not_seen h, collapseEach_collapseEach ih]
  | array t ih => simp only [collapse, ih]
  | _ => rfl

/-! ## No name twice -/

theorem collapseEach_of_nodup
    (h : ∀ f ∈ fields, ∀ seen, (packetNames f.2 ++ seen).Nodup →
      collapse f.2 seen = (f.2, (packetNames f.2).reverse ++ seen))
    (hn : (packetNamesEach fields ++ seen).Nodup) :
    collapseEach fields seen = (fields, (packetNamesEach fields).reverse ++ seen) := by
  induction fields generalizing seen with
  | nil => rfl
  | cons f fields ih =>
    rw [packetNamesEach, List.append_assoc] at hn
    have hf : (packetNames f.2 ++ seen).Nodup :=
      hn.sublist ((List.sublist_append_right _ _).append_left _)
    -- the names of the first type are met behind it, in whatever order
    have hfs : (packetNamesEach fields ++ ((packetNames f.2).reverse ++ seen)).Nodup := by
      refine List.Perm.nodup ?_ hn
      have hr := (List.reverse_perm (packetNames f.2)).symm.append_right seen
      refine .trans ?_ (hr.append_left _)
      rw [← List.append_assoc, ← List.append_assoc]
      exact List.perm_append_comm.append_right seen
    simp only [collapseEach, h f List.mem_cons_self seen hf,
      ih (fun g hg => h g (List.mem_cons_of_mem f hg)) hfs]
    rw [packetNamesEach, List.reverse_append, List.append_assoc]

/-- Where no name comes twice, nothing collapses. -/
theorem collapse_of_nodup (t : FieldType) {seen : List String}
    (h : (packetNames t ++ seen).Nodup) :
    collapse t seen = (t, (packetNames t).reverse ++ seen) := by
  induction t generalizing seen with
  | embedded name fields ih =>
    rw [packetNames] at h
    have hf : (packetNamesEach fields ++ name :: seen).Nodup :=
      List.perm_middle.symm.nodup h
    have hn : name ∉ seen := (List.nodup_cons.1 (List.nodup_append.1 hf).2.1).1
    rw [collapse_of_not_seen hn, collapseEach_of_nodup (fun f hf _ => ih f hf) hf, packetNames]
    simp
  | array t ih => simp only [collapse, packetNames, ih h]
  | _ => rfl

/-! ## Wire order -/

theorem sortedEach_eq_map (fields : List (String × FieldType)) :
    sortedEach fields = fields.map fun f => (f.1, f.2.sorted) := by
  induction fields with
  | nil => rw [sortedEach, List.map_nil]
  | cons f fields ih => rw [sortedEach, ih, List.map_cons]

/-- Wire order keeps names as good as they are. -/
theorem WellNamed.sorted {t : FieldType} (h : t.WellNamed) : t.sorted.WellNamed := by
  induction h with
  | word h => cases h <;> exact .word (by constructor)
  | enumeration plain ne_nil members => exact .enumeration plain ne_nil members
  | @embedded name fields plain distinct names types ih =>
    have hp := inWireOrder_perm (sortedEach fields)
    rw [FieldType.sorted]
    refine .embedded plain ?_ (fun f hf => ?_) fun f hf => ?_
    · refine (hp.map Prod.fst).nodup_iff.2 ?_
      rwa [sortedEach_eq_map, List.map_map]
    all_goals
      rw [mem_inWireOrder, sortedEach_eq_map] at hf
      obtain ⟨g, hg, rfl⟩ := List.mem_map.1 hf
    · exact names g hg
    · exact ih g hg
  | @array t element flat ih =>
    refine .array ih fun u hu => ?_
    cases t
    case array t => exact flat t rfl
    all_goals cases hu

theorem packetNamesEach_eq (fields : List (String × FieldType)) :
    packetNamesEach fields = fields.flatMap fun f => f.2.packetNames := by
  induction fields with
  | nil => rw [packetNamesEach, List.flatMap_nil]
  | cons f fields ih => rw [packetNamesEach, ih, List.flatMap_cons]

/-- Wire order keeps the names of packets. -/
theorem packetNames_sorted (t : FieldType) : t.sorted.packetNames.Perm t.packetNames := by
  induction t with
  | embedded name fields ih =>
    rw [sorted, packetNames, packetNames, packetNamesEach_eq, packetNamesEach_eq]
    refine .cons name (((inWireOrder_perm _).flatMap_right _).trans ?_)
    rw [sortedEach_eq_map, List.flatMap_map]
    exact .flatMap_left fields ih
  | array t ih => exact ih
  | _ => exact .refl _

end FieldType

namespace PacketSchema

/-- What counts of a packet for its version string (module doc). -/
def shape (s : PacketSchema) : FieldType := (s.embed.sorted.collapse []).1

/-- The packet is well named as one that is embedded. -/
def WellNamed (s : PacketSchema) : Prop := s.embed.WellNamed

/-- No packet name, that of the packet included, comes twice. -/
def Unrepeated (s : PacketSchema) : Prop := s.embed.packetNames.Nodup

/-- Without repeated names the shape is the schema in wire order. -/
theorem shape_of_unrepeated {s : PacketSchema} (h : s.Unrepeated) : s.shape = s.embed.sorted := by
  have hs : (s.embed.sorted.packetNames ++ []).Nodup := by
    rw [List.append_nil]
    exact (FieldType.packetNames_sorted s.embed).nodup_iff.2 h
  rw [shape, FieldType.collapse_of_nodup _ hs]

end PacketSchema
end PacketRpc
