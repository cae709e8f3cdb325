import Mathlib.Data.List.Dedup
import PacketRpc.Service.HandlerTable
import PacketRpc.Text.Order

/-!
# What a history of installations leaves behind

Handlers and mappers are installed one after another, in any order and any number. The table then
keeps the last handler of each type (`HandlerTable.entryAt?_after`) and the last mapper, and that
settles what becomes of a request (`HandlerTable.follows`).
-/

namespace PacketRpc.HandlerTable

open PacketKind (Content typeName)

/-- The ways to add to a table. -/
inductive Call (T : Type) [PacketKind T] (m : Type → Type)
  | onReceive (handler : TypedHandler T m)
  | onError (mapper : ServiceError → m (Option (AnyPacket T)))

variable {T : Type} [PacketKind T] {m : Type → Type}

/-- The handlers of a history. -/
def receivers (calls : List (Call T m)) : List (TypedHandler T m) :=
  calls.filterMap fun
    | .onReceive h => some h
    | .onError _ => none

/-- The mappers of a history. -/
def mappers (calls : List (Call T m)) : List (ServiceError → m (Option (AnyPacket T))) :=
  calls.filterMap fun
    | .onReceive _ => none
    | .onError f => some f

/-- In the history the handler is installed, and after it none for the same type. -/
def LastFor (calls : List (Call T m)) (h : TypedHandler T m) : Prop :=
  ∃ before later, calls = before ++ .onReceive h :: later ∧ ∀ k ∈ receivers later, k.type ≠ h.type

theorem receivers_append (calls more : List (Call T m)) :
    receivers (calls ++ more) = receivers calls ++ receivers more := List.filterMap_append

theorem LastFor.mem {calls : List (Call T m)} {h : TypedHandler T m} (hl : LastFor calls h) :
    h ∈ receivers calls := by
  obtain ⟨before, later, rfl, -⟩ := hl
  rw [receivers_append]
  exact List.mem_append_right _ List.mem_cons_self

theorem exists_lastFor {calls : List (Call T m)} {t : T} (h : ∃ k ∈ receivers calls, k.type = t) :
    ∃ k, LastFor calls k ∧ k.type = t := by
  induction calls with
  | nil =>
    obtain ⟨k, hk, -⟩ := h
    cases hk
  | cons c calls ih =>
    by_cases hc : ∃ k ∈ receivers calls, k.type = t
    · obtain ⟨k, ⟨before, later, rfl, hl⟩, ht⟩ := ih hc
      exact ⟨k, ⟨c :: before, later, rfl, hl⟩, ht⟩
    · obtain ⟨k, hk, ht⟩ := h
      cases c with
      | onError f => exact absurd ⟨k, hk, ht⟩ hc
      | onReceive k' =>
        rcases List.mem_cons.1 hk with rfl | hk
        · exact ⟨k, ⟨[], calls, rfl, fun k' hk' ht' => hc ⟨k', hk', ht'.trans ht⟩⟩, ht⟩
        · exact absurd ⟨k, hk, ht⟩ hc

/-! ## Endings and names -/

theorem result_eq (e : Ending T) : e.result = match e with
    | .response p => .ok p
    | .failure reason => .error (.handlerFailed reason)
    | .panic left => .error (.handlerPanicked (left.getD "unknown panic payload")) := by
  rcases e with p | reason | (_ | text) <;> rfl

theorem pairwise_names (es : List ((_ : T) × KeptHandler T m)) : (names es).Pairwise (· ≤ ·) :=
  Text.pairwise_mergeSort id _

/-- The order in which the entries come does not show. -/
theorem names_eq_of_perm {es es' : List ((_ : T) × KeptHandler T m)} (h : es.Perm es') :
    names es = names es' := by
  have hp : (names es).Perm (names es') :=
    (List.mergeSort_perm _ _).trans ((h.map _).trans (List.mergeSort_perm _ _).symm)
  refine hp.eq_of_pairwise (fun a b _ _ hab hba => ?_) (pairwise_names es) (pairwise_names es')
  exact String.le_antisymm hab hba

/-! ## Histories -/

variable [DecidableEq T] [Monad m]

/-- Adds to a table. -/
def call (d : HandlerTable T m) : Call T m → HandlerTable T m
  | .onReceive h => d.onReceive h
  | .onError f => d.onError f

/-- The table that a history builds up from the empty one. -/
def after (calls : List (Call T m)) : HandlerTable T m := calls.foldl call {}

/-! ## Entries -/

theorem entryAt?_onReceive (d : HandlerTable T m) (h : TypedHandler T m) (t : T) :
    (d.onReceive h).entryAt? t = if t = h.type then some h.keep else d.entryAt? t := by
  unfold entryAt? onReceive
  split
  · next ht =>
    subst ht
    exact AList.lookup_insert d.entries
  · next ht => exact AList.lookup_insert_ne ht

/-- Handlers of other types leave an entry alone, and so do mappers. -/
theorem entryAt?_foldl (d : HandlerTable T m) {calls : List (Call T m)} {t : T}
    (h : ∀ k ∈ receivers calls, k.type ≠ t) : (calls.foldl call d).entryAt? t = d.entryAt? t := by
  induction calls generalizing d with
  | nil => rfl
  | cons c calls ih =>
    rw [List.foldl_cons]
    cases c with
    | onReceive k =>
      obtain ⟨hk, h⟩ := List.forall_mem_cons.1 h
      rw [ih _ h, call, entryAt?_onReceive, if_neg (Ne.symm hk)]
    | onError f => exact ih _ h

theorem LastFor.entryAt? {calls : List (Call T m)} {h : TypedHandler T m} (hl : LastFor calls h) :
    (after calls).entryAt? h.type = some h.keep := by
  obtain ⟨before, later, rfl, hl⟩ := hl
  rw [after, List.foldl_append, List.foldl_cons, entryAt?_foldl _ hl, call, entryAt?_onReceive,
    if_pos rfl]

/-- An entry is that of the last handler of its type. -/
theorem entryAt?_after {calls : List (Call T m)} {t : T} {k : KeptHandler T m} :
    (after calls).entryAt? t = some k ↔ ∃ h, LastFor calls h ∧ h.type = t ∧ h.keep = k := by
  constructor
  · intro hk
    by_cases ht : ∃ h ∈ receivers calls, h.type = t
    · obtain ⟨h, hl, rfl⟩ := exists_lastFor ht
      exact ⟨h, hl, rfl, Option.some.inj (hl.entryAt?.symm.trans hk)⟩
    · push Not at ht
      rw [after, entryAt?_foldl _ ht] at hk
      cases hk
  · rintro ⟨h, hl, rfl, rfl⟩
    exact hl.entryAt?

theorem mem_keys_after {calls : List (Call T m)} {t : T} :
    t ∈ (after calls).entries.keys ↔ t ∈ (receivers calls).map (·.type) := by
  rw [← AList.mem_keys, ← AList.lookup_isSome, Option.isSome_iff_exists, List.mem_map]
  constructor
  · rintro ⟨k, hk⟩
    obtain ⟨h, hl, ht, -⟩ := entryAt?_after.1 hk
    exact ⟨h, hl.mem, ht⟩
  · rintro ⟨h, hm, ht⟩
    obtain ⟨h, hl, ht⟩ := exists_lastFor ⟨h, hm, ht⟩
    exact ⟨h.keep, entryAt?_after.2 ⟨h, hl, ht, rfl⟩⟩

/-! ## Handlers -/

theorem contentAs?_self (t : T) (c : Content t) : (AnyPacket.mk t c).contentAs? t = some c :=
  dif_pos rfl

theorem dispatch_congr {d d' : HandlerTable T m} {p : AnyPacket T}
    (h : d.entryAt? p.type = d'.entryAt? p.type) : d.dispatch p = d'.dispatch p := by
  unfold dispatch
  rw [h]

theorem LastFor.dispatch {calls : List (Call T m)} {h : TypedHandler T m} (hl : LastFor calls h)
    (c : Content h.type) : (after calls).dispatch ⟨h.type, c⟩ = Ending.result <$> h.handle c := by
  unfold HandlerTable.dispatch
  simp only [hl.entryAt?, TypedHandler.keep, contentAs?_self]

/-! ## Names -/

theorem names_after (calls : List (Call T m)) :
    (after calls).entries.entries.map (fun e => e.2.name) =
      (after calls).entries.keys.map typeName := by
  unfold AList.keys List.keys
  rw [List.map_map]
  refine List.map_congr_left fun e he => ?_
  have hk : (after calls).entryAt? e.1 = some e.2 :=
    AList.mem_lookup_iff.2 he
  obtain ⟨h, -, ht, hk⟩ := entryAt?_after.1 hk
  rw [← hk, Function.comp_apply, ← ht]
  rfl

theorem handledTypes_after (calls : List (Call T m)) :
    (after calls).handledTypes.Perm (((receivers calls).map (·.type)).dedup.map typeName) := by
  have hkeys : (after calls).entries.keys.Perm ((receivers calls).map (·.type)).dedup := by
    refine (List.perm_ext_iff_of_nodup (AList.keys_nodup _) (List.nodup_dedup _)).2 fun t => ?_
    rw [mem_keys_after, List.mem_dedup]
  refine (List.mergeSort_perm _ _).trans ?_
  rw [names_after]
  exact hkeys.map _

/-! ## Mappers -/

theorem mapper_foldl (d : HandlerTable T m) (calls : List (Call T m)) :
    (calls.foldl call d).mapper = (mappers calls).getLast?.or d.mapper := by
  induction calls generalizing d with
  | nil => rfl
  | cons c calls ih =>
    rw [List.foldl_cons, ih]
    cases c with
    | onReceive h => rfl
    | onError f =>
      show _ = (f :: mappers calls).getLast?.or _
      rw [List.getLast?_cons]
      cases (mappers calls).getLast? <;> rfl

theorem entries_foldl (d d' : HandlerTable T m) (h : d.entries = d'.entries)
    (calls : List (Call T m)) :
    (calls.foldl call d).entries = (((receivers calls).map .onReceive).foldl call d').entries := by
  induction calls generalizing d d' with
  | nil => exact h
  | cons c calls ih =>
    cases c with
    | onReceive k =>
      refine ih _ _ ?_
      simp only [call, onReceive, h]
    | onError f => exact ih _ _ h

/-! ## The outcome -/

/-- What a history of installations has led to. -/
structure Follows (calls : List (Call T m)) : Prop where
  exists_last : ∀ t, (∃ h ∈ receivers calls, h.type = t) → ∃ h, LastFor calls h ∧ h.type = t
  /-- The last handler of a type gets the requests of that type. All else that the dispatch does is
  to say how the handler ended. -/
  dispatch_last : ∀ h, LastFor calls h → ∀ c,
    (after calls).dispatch ⟨h.type, c⟩ = (fun
      | .response p => .ok p
      | .failure reason => .error (.handlerFailed reason)
      | .panic left => .error (.handlerPanicked (left.getD "unknown panic payload"))) <$> h.handle c
  /-- Nothing is asked of the types that do have handlers, such as to have other names. -/
  dispatch_missing : ∀ p : AnyPacket T, (∀ h ∈ receivers calls, h.type ≠ p.type) →
    (after calls).dispatch p = pure (.error (.handlerMissing p.name))
  /-- A handler finds any request that it is handed to be one of its own. -/
  content : ∀ (p : AnyPacket T) k, (after calls).entryAt? p.type = some k →
    ∃ (h : TypedHandler T m) (c : _), k = h.keep ∧ p.contentAs? h.type = some c
  other_types : ∀ (h : TypedHandler T m) (p : AnyPacket T), p.type ≠ h.type →
    (after (calls ++ [.onReceive h])).dispatch p = (after calls).dispatch p
  handles : ∀ t, (after calls).handles t = true ↔ ∃ h ∈ receivers calls, h.type = t
  sorted : (after calls).handledTypes.Pairwise (· ≤ ·)
  handledTypes : (after calls).handledTypes.Perm
    (((receivers calls).map (·.type)).dedup.map typeName)
  unordered : ∀ es, es.Perm (after calls).entries.entries → names es = (after calls).handledTypes
  mapError : ∀ e, (after calls).mapError e =
    ((mappers calls).getLast?.map fun f => f e).getD (pure none)
  /-- Without its mappers the history leads to the same dispatches. -/
  unmapped : (after calls).dispatch = (after ((receivers calls).map .onReceive)).dispatch

theorem follows (calls : List (Call T m)) : Follows calls where
  exists_last _ := exists_lastFor
  dispatch_last h hl c := by
    rw [hl.dispatch]
    exact congrArg (· <$> h.handle c) (funext result_eq)
  dispatch_missing p hp := by
    have hn : (after calls).entryAt? p.type = none := entryAt?_foldl _ hp
    unfold dispatch
    rw [hn]
  content p k hk := by
    obtain ⟨h, -, ht, rfl⟩ := entryAt?_after.1 hk
    obtain ⟨t, c⟩ := p
    cases ht
    exact ⟨h, c, rfl, contentAs?_self h.type c⟩
  other_types h p hp := by
    refine dispatch_congr ?_
    rw [after, List.foldl_append]
    exact (entryAt?_onReceive _ h p.type).trans (if_neg hp)
  handles t := by
    unfold HandlerTable.handles entryAt?
    rw [AList.lookup_isSome, AList.mem_keys, mem_keys_after, List.mem_map]
  sorted := pairwise_names _
  handledTypes := handledTypes_after calls
  unordered _ h := names_eq_of_perm h
  mapError e := by
    unfold HandlerTable.mapError after
    rw [mapper_foldl, Option.or_none]
    cases (mappers calls).getLast? <;> rfl
  unmapped := by
    funext p
    refine dispatch_congr ?_
    unfold entryAt? after
    rw [entries_foldl {} {} rfl calls]

end PacketRpc.HandlerTable
