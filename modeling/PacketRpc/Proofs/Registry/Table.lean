import Mathlib.Data.Finset.Card
import Mathlib.Data.List.Induction
import Mathlib.Data.List.Nodup
import PacketRpc.Registry.Table
import PacketRpc.Text.Order

/-!
# What a history of registrations leaves behind

Whatever types are registered one after another, the type behind a hash is the first one of the
history with that hash, if the hash is not the reserved one (`PacketTable.entryAt?_after`). The rest
follows: which registrations succeed, what is known, and that the order of the history does not
count where no two types want one hash.
-/

namespace PacketRpc.PacketTable

open PacketFamily (blank hash name type type_blank hash_blank)

variable {T P : Type}

/-! ## Looking up -/

theorem lookup_eq_some_iff {α : Type} {es : List (PacketHash × α)} {h : PacketHash} {a : α}
    (hn : (es.map Prod.fst).Nodup) : es.lookup h = some a ↔ (h, a) ∈ es := by
  induction es with
  | nil => simp
  | cons e es ih =>
    obtain ⟨k, b⟩ := e
    obtain ⟨hk, hn⟩ := List.nodup_cons.1 hn
    rw [List.lookup_cons, List.mem_cons]
    by_cases hh : h = k
    · subst hh
      have hm : (h, a) ∉ es := fun hm => hk (List.mem_map.2 ⟨(h, a), hm, rfl⟩)
      simp [hm, eq_comm]
    · rw [beq_false_of_ne hh]
      simp [hh, ih hn]

theorem entryAt?_cons (h h' : PacketHash) (e : TableEntry T P)
    (es : List (PacketHash × TableEntry T P)) :
    entryAt? ⟨(h', e) :: es⟩ h = if h = h' then some e else entryAt? ⟨es⟩ h := by
  unfold entryAt?
  split
  · next hh => rw [hh, List.lookup_cons_self]
  · next hh =>
    rw [List.lookup_cons]
    rw [beq_false_of_ne hh]

/-! ## Listings -/

theorem rowLE_iff {a b : PacketHash × String} : rowLE a b = true ↔
    a.1.value.toInt < b.1.value.toInt ∨ a.1 = b.1 ∧ a.2 ≤ b.2 := by
  rw [rowLE, Bool.or_eq_true, decide_eq_true_iff, Bool.and_eq_true, decide_eq_true_iff,
    Text.not_lt_iff, Int64.lt_iff_toInt_lt]

theorem rowLE_trans {a b c : PacketHash × String} (hab : rowLE a b = true)
    (hbc : rowLE b c = true) : rowLE a c = true := by
  rw [rowLE_iff] at *
  rcases hab with hab | ⟨hab, hn⟩
  · rcases hbc with hbc | ⟨hbc, -⟩
    · exact .inl (Int.lt_trans hab hbc)
    · exact .inl (hbc ▸ hab)
  · rcases hbc with hbc | ⟨hbc, hn'⟩
    · exact .inl (hab ▸ hbc)
    · exact .inr ⟨hab.trans hbc, String.le_trans hn hn'⟩

theorem hash_trichotomy (h k : PacketHash) :
    h.value.toInt < k.value.toInt ∨ h = k ∨ k.value.toInt < h.value.toInt := by
  rcases Int.lt_trichotomy h.value.toInt k.value.toInt with hlt | heq | hgt
  · exact .inl hlt
  · exact .inr (.inl (by cases h; cases k; exact congrArg _ (Int64.toInt_inj.1 heq)))
  · exact .inr (.inr hgt)

theorem rowLE_total (a b : PacketHash × String) : (rowLE a b || rowLE b a) = true := by
  rw [Bool.or_eq_true, rowLE_iff, rowLE_iff]
  rcases hash_trichotomy a.1 b.1 with h | h | h
  · exact .inl (.inl h)
  · rcases String.le_total a.2 b.2 with hn | hn
    · exact .inl (.inr ⟨h, hn⟩)
    · exact .inr (.inr ⟨h.symm, hn⟩)
  · exact .inr (.inl h)

theorem rows_perm (es : List (PacketHash × TableEntry T P)) :
    (rows es).Perm (es.map fun e => (e.1, e.2.name)) :=
  List.mergeSort_perm _ _

/-- Where no hash stands twice, the hashes of a listing increase. -/
theorem pairwise_rows {es : List (PacketHash × TableEntry T P)} (hn : (es.map Prod.fst).Nodup) :
    (rows es).Pairwise fun a b => a.1.value.toInt < b.1.value.toInt := by
  have hs : (rows es).Pairwise fun a b => rowLE a b = true := by
    unfold rows
    exact @List.pairwise_mergeSort _ rowLE (fun _ _ _ => rowLE_trans) rowLE_total _
  have hd : ((rows es).map Prod.fst).Nodup := by
    refine (((rows_perm es).map Prod.fst).nodup_iff).2 ?_
    rw [List.map_map]
    exact hn
  have hne : (rows es).Pairwise fun a b => a.1 ≠ b.1 := List.pairwise_map.1 hd
  refine (hs.and hne).imp fun {a b} h => ?_
  rcases rowLE_iff.1 h.1 with hlt | ⟨heq, -⟩
  · exact hlt
  · exact absurd heq h.2

/-- Lines for the entries are those of the listing if their hashes increase. -/
theorem eq_rows {es : List (PacketHash × TableEntry T P)} {lines : List (PacketHash × String)}
    (hn : (es.map Prod.fst).Nodup) (hp : lines.Perm (es.map fun e => (e.1, e.2.name)))
    (hl : lines.Pairwise fun a b => a.1.value.toInt < b.1.value.toInt) : lines = rows es := by
  refine (hp.trans (rows_perm es).symm).eq_of_pairwise (fun a b _ _ hab hba => ?_) hl
    (pairwise_rows hn)
  exact absurd hba (Int.lt_asymm hab)

/-- A listing does not depend on the order in which the entries come. -/
theorem rows_eq_of_perm {es fs : List (PacketHash × TableEntry T P)}
    (hn : (fs.map Prod.fst).Nodup) (h : es.Perm fs) : rows es = rows fs := by
  have hn' : (es.map Prod.fst).Nodup := (h.map Prod.fst).nodup_iff.2 hn
  exact eq_rows hn ((rows_perm es).trans (h.map _)) (pairwise_rows hn')

/-! ## Types and histories -/

variable [PacketFamily T P]

/-- The hash under which a type is registered. -/
def hashOf (t : T) : PacketHash := hash T (blank t)

/-- What is kept of a type. -/
def entryOf (t : T) : TableEntry T P := ⟨name T (blank t : P), t, fun _ => blank t⟩

/-- The first type of a history that carries a hash. -/
def first? (ts : List T) (h : PacketHash) : Option T := ts.find? fun t => decide (hashOf t = h)

theorem first?_append (ts us : List T) (h : PacketHash) :
    first? (ts ++ us) h = (first? ts h).or (first? us h) := List.find?_append

theorem first?_singleton (t : T) (h : PacketHash) :
    first? [t] h = if h = hashOf t then some t else none := by
  rw [first?, List.find?_singleton]
  simp [eq_comm]

theorem hashOf_of_first? {ts : List T} {t : T} {h : PacketHash} (ht : first? ts h = some t) :
    hashOf t = h := by
  simpa using List.find?_some ht

variable [DecidableEq T] {r : PacketTable T P} {t u : T} {h : PacketHash}

/-! ## Registering one type -/

/-- What can come of a registration. -/
inductive Registration (r : PacketTable T P) (t : T) :
    Except ProtocolError Unit × PacketTable T P → Prop
  | null (hn : (hashOf t).isNull = true) : Registration r t (.error .nullPacket, r)
  | new (hn : (hashOf t).isNull = false) (hf : r.entryAt? (hashOf t) = none) :
    Registration r t (.ok (), ⟨(hashOf t, entryOf t) :: r.entries⟩)
  | again {e : TableEntry T P} (hn : (hashOf t).isNull = false)
    (he : r.entryAt? (hashOf t) = some e) (ht : e.type = t) : Registration r t (.ok (), r)
  | taken {e : TableEntry T P} (hn : (hashOf t).isNull = false)
    (he : r.entryAt? (hashOf t) = some e) (ht : e.type ≠ t) :
    Registration r t (.error (.duplicateHash (hashOf t) e.name (name T (blank t : P))), r)

theorem registration (r : PacketTable T P) (t : T) : Registration r t (r.register t) := by
  rw [register]
  change Registration r t (if (hashOf t).isNull = true then _ else _)
  split
  · next hn => exact .null hn
  · next hn =>
    replace hn := Bool.eq_false_iff.2 hn
    split
    · next e he =>
      split
      · next ht => exact .again hn he ht
      · next ht => exact .taken hn he ht
    · next hf => exact .new hn hf

/-- A registration succeeds where the hash is free or belongs to the type. -/
theorem register_eq_ok : (r.register t).1 = .ok () ↔
    (hashOf t).isNull = false ∧ ∀ e, r.entryAt? (hashOf t) = some e → e.type = t := by
  rcases hr : r.register t with ⟨o, r'⟩
  have hc := hr ▸ registration r t
  cases hc with
  | null hn => simp [hn]
  | new hn hf => simp [hn, hf]
  | again hn he ht => simp [hn, he, ht]
  | taken hn he ht => simp [hn, he, ht]

theorem register_of_null (hn : (hashOf t).isNull = true) :
    r.register t = (.error .nullPacket, r) := by
  rw [register]
  exact if_pos hn

theorem register_of_taken {e : TableEntry T P} (hn : (hashOf t).isNull = false)
    (he : r.entryAt? (hashOf t) = some e) (ht : e.type ≠ t) : r.register t =
      (.error (.duplicateHash (hashOf t) e.name (name T (blank t : P))), r) := by
  rcases hr : r.register t with ⟨o, r'⟩
  have hc := hr ▸ registration r t
  cases hc with
  | null hn' => simp [hn] at hn'
  | new _ hf => simp [hf] at he
  | again _ he' ht' =>
    rw [he] at he'
    cases he'
    exact absurd ht' ht
  | taken _ he' _ =>
    rw [he] at he'
    cases he'
    rfl

/-- A registration leaves every entry where it is, and puts its type where there was none. -/
theorem entryAt?_register (r : PacketTable T P) (t : T) (h : PacketHash) :
    (r.register t).2.entryAt? h = (r.entryAt? h).or
      (if h = hashOf t ∧ h.isNull = false then some (entryOf t) else none) := by
  rcases hr : r.register t with ⟨o, r'⟩
  have hc := hr ▸ registration r t
  by_cases hh : h = hashOf t
  · subst hh
    cases hc with
    | null hn => simp [hn]
    | new hn hf => simp [entryAt?_cons, hn, hf]
    | again hn he ht => simp [he]
    | taken hn he ht => simp [he]
  · cases hc with
    | new hn hf => simp [entryAt?_cons, hh]
    | null | again | taken => simp [hh]

/-! ## Histories -/

/-- The table after some more registrations; some of them may be refused. -/
def registerEach (r : PacketTable T P) (ts : List T) : PacketTable T P :=
  ts.foldl (fun r t => (r.register t).2) r

/-- The table after a history of registrations. -/
def after (ts : List T) : PacketTable T P := registerEach {} ts

/-- The types of a history whose registrations succeed. -/
def accepted (r : PacketTable T P) : List T → List T
  | [] => []
  | t :: ts =>
    if (r.register t).1.isOk then t :: accepted (r.register t).2 ts
    else accepted (r.register t).2 ts

theorem after_append (ts us : List T) :
    (after (ts ++ us) : PacketTable T P) = registerEach (after ts) us := by
  rw [after, registerEach, List.foldl_append]
  rfl

theorem accepted_append (r : PacketTable T P) (ts us : List T) :
    r.accepted (ts ++ us) = r.accepted ts ++ (r.registerEach ts).accepted us := by
  induction ts generalizing r with
  | nil => rfl
  | cons t ts ih =>
    rw [List.cons_append, accepted, accepted, ih]
    split <;> rfl

/-- **A hash belongs to the first type that asks for it**, and the reserved hash to none. -/
theorem entryAt?_after (ts : List T) (h : PacketHash) :
    (after ts : PacketTable T P).entryAt? h =
      if h.isNull then none else (first? ts h).map entryOf := by
  induction ts using List.reverseRecOn with
  | nil => simp [after, registerEach, first?, entryAt?]
  | append_singleton ts t ih =>
    rw [after_append, first?_append, first?_singleton]
    show ((after ts).register t).2.entryAt? h = _
    rw [entryAt?_register, ih]
    by_cases hn : h.isNull = true
    · simp [hn]
    · rw [if_neg hn, if_neg hn, Option.map_or]
      by_cases hh : h = hashOf t
      · subst hh
        simp [hn]
      · simp [hh]

/-- In terms of the history: a type is accepted unless another one had its hash before. -/
theorem register_after_eq_ok {ts : List T} : ((after ts : PacketTable T P).register t).1 = .ok () ↔
    (hashOf t).isNull = false ∧ ∀ u, first? ts (hashOf t) = some u → u = t := by
  rw [register_eq_ok]
  refine and_congr_right fun hn => ?_
  rw [entryAt?_after, hn, if_neg Bool.false_ne_true]
  constructor
  · intro h u hu
    exact h (entryOf u) (by rw [hu, Option.map_some])
  · intro h e he
    obtain ⟨u, hu, rfl⟩ := Option.map_eq_some_iff.1 he
    exact h u hu

theorem isOk_iff {ε : Type} {x : Except ε Unit} : x.isOk = true ↔ x = .ok () := by
  cases x <;> simp [Except.isOk, Except.toBool]

theorem mem_accepted_singleton : t ∈ r.accepted [u] ↔ t = u ∧ (r.register u).1 = .ok () := by
  rw [← isOk_iff]
  unfold accepted
  split
  · next h => simp [accepted, h]
  · next h => simp [accepted, h]

/-- **The accepted types are the first ones** of the history under their hashes. -/
theorem mem_accepted {ts : List T} : t ∈ accepted ({} : PacketTable T P) ts ↔
    (hashOf t).isNull = false ∧ first? ts (hashOf t) = some t := by
  induction ts using List.reverseRecOn with
  | nil => simp [accepted, first?]
  | append_singleton ts u ih =>
    rw [accepted_append, List.mem_append, ih, mem_accepted_singleton]
    change _ ∨ t = u ∧ ((after ts).register u).1 = _ ↔ _
    rw [register_after_eq_ok, first?_append, first?_singleton]
    rcases hf : first? ts (hashOf t) with _ | v
    · by_cases hu : t = u
      · subst hu
        simp [hf]
      · simp [hu, Ne.symm hu]
    · rw [Option.some_or]
      constructor
      · rintro (h | ⟨rfl, hn, hv⟩)
        · exact h
        · exact ⟨hn, congrArg some (hv v hf)⟩
      · exact .inl

/-! ## The entries -/

/-- Every entry is the one of its type and stands under the hash of that type, which is not the
reserved one; and no hash stands twice. -/
structure Keyed (r : PacketTable T P) : Prop where
  eq_entryOf : ∀ e ∈ r.entries, e = (hashOf e.2.type, entryOf e.2.type)
  isNull : ∀ e ∈ r.entries, e.1.isNull = false
  nodup : (r.entries.map Prod.fst).Nodup

theorem Keyed.register (h : Keyed r) (t : T) : Keyed (r.register t).2 := by
  rcases hr : r.register t with ⟨o, r'⟩
  have hc := hr ▸ registration r t
  cases hc with
  | null | again | taken => exact h
  | new hn hf =>
    refine ⟨List.forall_mem_cons.2 ⟨rfl, h.eq_entryOf⟩, List.forall_mem_cons.2 ⟨hn, h.isNull⟩, ?_⟩
    refine List.nodup_cons.2 ⟨fun hm => ?_, h.nodup⟩
    obtain ⟨e, he, hk⟩ := List.mem_map.1 hm
    change e.1 = hashOf t at hk
    rw [← hk, entryAt?, (lookup_eq_some_iff h.nodup).2 he] at hf
    cases hf

theorem keyed_after (ts : List T) : Keyed (after ts : PacketTable T P) := by
  induction ts using List.reverseRecOn with
  | nil => exact ⟨by simp [after, registerEach], by simp [after, registerEach], .nil⟩
  | append_singleton ts t ih =>
    rw [after_append]
    exact ih.register t

theorem mem_entries_after {ts : List T} {e : PacketHash × TableEntry T P} :
    e ∈ (after ts : PacketTable T P).entries ↔
      e.1.isNull = false ∧ ∃ t, first? ts e.1 = some t ∧ entryOf t = e.2 := by
  obtain ⟨h, e⟩ := e
  rw [← lookup_eq_some_iff (keyed_after ts).nodup]
  change entryAt? _ _ = _ ↔ _
  rw [entryAt?_after]
  split
  · next hn => simp [hn]
  · next hn => simp [hn]

/-- The registered hashes are those of the accepted types. -/
theorem mem_hashes_after {ts : List T} : h ∈ (after ts : PacketTable T P).entries.map Prod.fst ↔
    ∃ t ∈ accepted ({} : PacketTable T P) ts, hashOf t = h := by
  constructor
  · intro hm
    obtain ⟨e, he, rfl⟩ := List.mem_map.1 hm
    obtain ⟨hn, t, ht, -⟩ := mem_entries_after.1 he
    obtain hh := hashOf_of_first? ht
    exact ⟨t, mem_accepted.2 (by rw [hh]; exact ⟨hn, ht⟩), hh⟩
  · rintro ⟨t, ht, rfl⟩
    obtain ⟨hn, hf⟩ := mem_accepted.1 ht
    exact List.mem_map.2 ⟨(_, entryOf t), mem_entries_after.2 ⟨hn, t, hf, rfl⟩, rfl⟩

theorem size_after (ts : List T) : (after ts : PacketTable T P).size =
    ((accepted ({} : PacketTable T P) ts).map hashOf).toFinset.card := by
  have hs : ((after ts : PacketTable T P).entries.map Prod.fst).toFinset =
        ((accepted ({} : PacketTable T P) ts).map hashOf).toFinset := by
    ext h
    rw [List.mem_toFinset, mem_hashes_after, List.mem_toFinset, List.mem_map]
  rw [← hs, List.toFinset_card_of_nodup (keyed_after ts).nodup, List.length_map, size]

theorem knows_after {ts : List T} {p : P} : (after ts : PacketTable T P).knows p = true ↔
    type p ∈ accepted ({} : PacketTable T P) ts := by
  have hp : hashOf (type p) = hash T p := hash_blank p
  rw [knows, entryAt?_after, mem_accepted, hp]
  split
  · next hn => simp [hn]
  · next hn => cases hf : first? ts (hash T p) <;> simp [hn, entryOf]

/-! ## The order of a history -/

/-- No two types of the history want one hash, unless it is the reserved one. -/
def CollisionFree (ts : List T) : Prop :=
  ∀ t ∈ ts, ∀ u ∈ ts, hashOf t = hashOf u → (hashOf t).isNull = true ∨ t = u

/-- Two tables answer every question alike. -/
structure SameAnswers (r s : PacketTable T P) : Prop where
  register : ∀ t, (r.register t).1 = (s.register t).1
  newInstance : ∀ h, r.newInstance h = s.newInstance h
  knows : ∀ p, r.knows p = s.knows p
  contains : ∀ h, r.contains h = s.contains h
  nameOf? : ∀ h, r.nameOf? h = s.nameOf? h
  size : r.size = s.size
  isEmpty : r.isEmpty = s.isEmpty
  listing : r.listing = s.listing

/-- Entries in another order give the same answers. -/
theorem sameAnswers_of_perm {s : PacketTable T P} (hs : Keyed s) (h : r.entries.Perm s.entries) :
    SameAnswers r s := by
  have hn : (r.entries.map Prod.fst).Nodup := (h.map Prod.fst).nodup_iff.2 hs.nodup
  have he : r.entryAt? = s.entryAt? := by
    funext k
    refine Option.ext fun e => ?_
    exact (lookup_eq_some_iff hn).trans (h.mem_iff.trans (lookup_eq_some_iff hs.nodup).symm)
  constructor
  case register =>
    intro t
    simp only [PacketTable.register, he]
    repeat' split
    all_goals rfl
  case newInstance => simp only [PacketTable.newInstance, he, implies_true]
  case knows => simp only [PacketTable.knows, he, implies_true]
  case contains => simp only [PacketTable.contains, he, implies_true]
  case nameOf? => simp only [PacketTable.nameOf?, he, implies_true]
  case size => exact h.length_eq
  case isEmpty => exact h.isEmpty_eq
  case listing => rw [PacketTable.listing, rows_eq_of_perm hs.nodup h, ← PacketTable.listing]

omit [DecidableEq T] in
theorem first?_eq_some_iff {ts : List T} (hc : CollisionFree ts) (hn : h.isNull = false) {t : T} :
    first? ts h = some t ↔ t ∈ ts ∧ hashOf t = h := by
  refine ⟨fun ht => ⟨List.mem_of_find?_eq_some ht, hashOf_of_first? ht⟩, ?_⟩
  rintro ⟨ht, rfl⟩
  rcases hf : first? ts (hashOf t) with _ | u
  · have := List.find?_eq_none.1 hf t ht
    simp at this
  · rcases hc u (List.mem_of_find?_eq_some hf) t ht (hashOf_of_first? hf) with hu | hu
    · rw [hashOf_of_first? hf, hn] at hu
      cases hu
    · rw [hu]

theorem perm_entries {ts us : List T} (hp : ts.Perm us) (hc : CollisionFree ts) :
    (after ts : PacketTable T P).entries.Perm (after us : PacketTable T P).entries := by
  have hc' : CollisionFree us := fun t ht u hu => hc t (hp.mem_iff.2 ht) u (hp.mem_iff.2 hu)
  refine (List.perm_ext_iff_of_nodup (keyed_after ts).nodup.of_map (keyed_after us).nodup.of_map).2
    fun e => ?_
  rw [mem_entries_after, mem_entries_after]
  refine and_congr_right fun hn => exists_congr fun t => and_congr_left fun _ => ?_
  rw [first?_eq_some_iff hc hn, first?_eq_some_iff hc' hn, hp.mem_iff]

/-! ## Altogether -/

/-- A registered type keeps its hash. -/
theorem entryAt?_append {ts : List T} {e : TableEntry T P}
    (he : (after ts : PacketTable T P).entryAt? h = some e) (us : List T) :
    (after (ts ++ us) : PacketTable T P).entryAt? h = some e := by
  induction us using List.reverseRecOn with
  | nil => rwa [List.append_nil]
  | append_singleton us u ih =>
    rw [← List.append_assoc, after_append]
    show ((after (ts ++ us)).register u).2.entryAt? h = _
    rw [entryAt?_register, ih, Option.some_or]

/-- What a history of registrations leaves behind. -/
structure Outcome (ts : List T) : Prop where
  /-- Each entry stands under a hash that is not reserved, and makes blank packets of its type,
  which carry that hash. -/
  keyed : ∀ e ∈ (after ts : PacketTable T P).entries, e.1.isNull = false ∧
    hash T (e.2.make ()) = e.1 ∧ e.2.make () = blank e.2.type
  /-- The next registration succeeds where the hash is free or belongs to the type. -/
  register_eq_ok : ∀ t, ((after ts : PacketTable T P).register t).1 = .ok () ↔
    (hashOf t).isNull = false ∧
      ∀ e, (after ts : PacketTable T P).entryAt? (hashOf t) = some e → e.type = t
  /-- The reserved hash is refused, -/
  register_null : ∀ t, (hashOf t).isNull = true →
    (after ts : PacketTable T P).register t = (.error .nullPacket, after ts)
  /-- and so is a hash that belongs to another type, by the names of both. -/
  register_taken : ∀ t e, (hashOf t).isNull = false →
    (after ts : PacketTable T P).entryAt? (hashOf t) = some e → e.type ≠ t →
    (after ts : PacketTable T P).register t =
      (.error (.duplicateHash (hashOf t) (name T (blank e.type : P)) (name T (blank t : P))),
        after ts)
  /-- A hash belongs to the first type that asked for it, -/
  first : ∀ h, (after ts : PacketTable T P).entryAt? h =
    if h.isNull then none else (first? ts h).map entryOf
  /-- which keeps it. -/
  kept : ∀ us h e, (after ts : PacketTable T P).entryAt? h = some e →
    (after (ts ++ us) : PacketTable T P).entryAt? h = some e
  size_eq : (after ts : PacketTable T P).size =
    ((accepted ({} : PacketTable T P) ts).map hashOf).toFinset.card
  knows_iff : ∀ p, (after ts : PacketTable T P).knows p = true ↔
    type p ∈ accepted ({} : PacketTable T P) ts
  /-- A listing has a line for each entry, -/
  rows_perm : (rows (after ts : PacketTable T P).entries).Perm
    ((after ts : PacketTable T P).entries.map fun e => (e.1, e.2.name))
  /-- in the order of the hashes, -/
  pairwise_rows : (rows (after ts : PacketTable T P).entries).Pairwise fun a b =>
    a.1.value.toInt < b.1.value.toInt
  /-- in whatever order the entries come. -/
  rows_eq : ∀ es, es.Perm (after ts : PacketTable T P).entries →
    rows es = rows (after ts : PacketTable T P).entries
  /-- The text is that of the lines: they follow each other by their hashes, each entry has one, and
  it shows the hash and the name. -/
  listing_eq : ∀ lines : List (PacketHash × String),
    lines.Perm ((after ts : PacketTable T P).entries.map fun e => (e.1, e.2.name)) →
    lines.Pairwise (fun a b => a.1.value.toInt < b.1.value.toInt) →
    (after ts : PacketTable T P).listing = "\x7b" ++
      ", ".intercalate (lines.map fun l => l.1.listing ++ ": " ++ Text.quoted l.2) ++ "\x7d"
  /-- The order of the history does not count where there is nothing to refuse. -/
  sameAnswers : ∀ us, ts.Perm us → CollisionFree ts →
    SameAnswers (after ts : PacketTable T P) (after us)

theorem outcome (ts : List T) : Outcome ts where
  keyed e he := by
    have hk := keyed_after ts
    rw [hk.eq_entryOf e he]
    exact ⟨hk.eq_entryOf e he ▸ hk.isNull e he, rfl, rfl⟩
  register_eq_ok _ := register_eq_ok
  register_null _ hn := register_of_null hn
  register_taken t e hn he ht := by
    have hk := (keyed_after ts).eq_entryOf _ ((lookup_eq_some_iff (keyed_after ts).nodup).1 he)
    have hname : e.name = name T (blank e.type : P) := congrArg (·.2.name) hk
    rw [← hname]
    exact register_of_taken hn he ht
  first := entryAt?_after ts
  kept us _ _ he := entryAt?_append he us
  size_eq := size_after ts
  knows_iff _ := knows_after
  rows_perm := rows_perm _
  pairwise_rows := PacketTable.pairwise_rows (keyed_after ts).nodup
  rows_eq _ hp := rows_eq_of_perm (keyed_after ts).nodup hp
  listing_eq _ hp hl := by rw [eq_rows (keyed_after ts).nodup hp hl, listing]
  sameAnswers us hp hc := sameAnswers_of_perm (keyed_after us) (perm_entries hp hc)

end PacketRpc.PacketTable
