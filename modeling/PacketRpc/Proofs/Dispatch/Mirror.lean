import PacketRpc.Proofs.Dispatch.Calls
import PacketRpc.Service.Dispatcher

/-!
# A dispatcher answers as a table

A dispatcher takes requests of the known packet types only, and its handlers do nothing beside
answering. Apart from that it is the table of the same history (`Dispatcher.Renders`), and gives the
same answers (`Dispatcher.follows_last`).
-/

namespace PacketRpc

instance : PacketKind PacketType where
  Content := PacketType.Content
  typeName := PacketType.name
  name t _ := t.name

/-- A packet of a known type as one of some type or other. -/
def Packet.any (p : Packet) : AnyPacket PacketType := ⟨p.type, p.content⟩

/-- A packet of some known type. -/
def AnyPacket.known (p : AnyPacket PacketType) : Packet := p.type.packet p.content

theorem Packet.known_any (p : Packet) : p.any.known = p := by cases p <;> rfl

theorem Packet.contentAs?_any (p : Packet) (t : PacketType) :
    p.any.contentAs? t = p.contentAs? t := rfl

/-- The same ending. -/
def Handled.any : Handled → Ending PacketType
  | response p => .response p.any
  | failure reason => .failure reason
  | panic left => .panic left

theorem Handled.result_any (e : Handled) : e.any.result.map AnyPacket.known = e.result := by
  rcases e with p | reason | (_ | text)
  · exact congrArg Except.ok p.known_any
  all_goals rfl

/-- The same handler. -/
def Handler.typed (h : Handler) : TypedHandler PacketType Id := ⟨h.type, fun c => (h.handle c).any⟩

theorem Handler.run_keep (h : Handler) (p : Packet) :
    (h.typed.keep.run p.any : Except _ _).map AnyPacket.known = h.run p := by
  unfold Handler.run TypedHandler.keep
  simp only [Handler.typed, Packet.contentAs?_any]
  cases p.contentAs? h.type with
  | none => rfl
  | some c => exact (h.handle c).result_any

namespace Dispatcher

open HandlerTable (after)

/-- The ways to add to a dispatcher. -/
inductive Call
  | onReceive (handler : Handler)
  | onError (mapper : ErrorMapper)

/-- Adds to a dispatcher. -/
def call (d : Dispatcher) : Call → Dispatcher
  | .onReceive h => d.onReceive h
  | .onError f => d.onError f

/-- The dispatcher that a history builds up from the empty one. -/
def ofCalls (calls : List Call) : Dispatcher := calls.foldl call {}

/-- The same mapper. -/
def anyMapper (f : ErrorMapper) : ServiceError → Id (Option (AnyPacket PacketType)) :=
  fun e => (f e).map Packet.any

/-- The same addition to a table. -/
def Call.any : Call → HandlerTable.Call PacketType Id
  | .onReceive h => .onReceive h.typed
  | .onError f => .onError (anyMapper f)

/-- What a table keeps of a handler, under its type. -/
def entryOf (h : Handler) : (_ : PacketType) × KeptHandler PacketType Id := ⟨h.type, h.typed.keep⟩

/-- The table keeps the handlers of the dispatcher, and its mapper. -/
structure Renders (d : Dispatcher) (s : HandlerTable PacketType Id) : Prop where
  entries : s.entries.entries = d.handlers.map entryOf
  mapper : s.mapper = d.mapper.map anyMapper

variable {d : Dispatcher} {s : HandlerTable PacketType Id}

theorem kerase_map {hs : List Handler} (hn : (hs.map entryOf).NodupKeys) (t : PacketType) :
    (hs.map entryOf).kerase t = (hs.filter fun k => decide (k.type ≠ t)).map entryOf := by
  induction hs with
  | nil => rfl
  | cons k hs ih =>
    obtain ⟨hk, hn⟩ := List.nodupKeys_cons.1 hn
    rw [List.map_cons]
    by_cases ht : k.type = t
    · subst ht
      have hf : ∀ h ∈ hs, decide (h.type ≠ k.type) = true := fun h hm =>
        decide_eq_true fun he => hk (List.mem_map.2 ⟨entryOf h, List.mem_map_of_mem hm, he⟩)
      have he : k.type = (entryOf k).1 := rfl
      rw [List.kerase_cons_eq he, List.filter_cons_of_neg (by simp), List.filter_eq_self.2 hf]
    · rw [List.kerase_cons_ne (Ne.symm ht), ih hn, List.filter_cons_of_pos (by simpa using ht)]
      rfl

theorem Renders.call (h : Renders d s) (c : Call) : Renders (d.call c) (s.call c.any) := by
  cases c with
  | onReceive k =>
    refine ⟨?_, h.mapper⟩
    show (s.entries.insert k.type k.typed.keep).entries = _
    rw [AList.entries_insert, h.entries, kerase_map (h.entries ▸ s.entries.nodupKeys)]
    rfl
  | onError f => exact ⟨h.entries, rfl⟩

theorem Renders.foldl (h : Renders d s) (calls : List Call) :
    Renders (calls.foldl Dispatcher.call d) ((calls.map Call.any).foldl HandlerTable.call s) := by
  induction calls generalizing d s with
  | nil => exact h
  | cons c calls ih => exact ih (h.call c)

theorem renders_ofCalls (calls : List Call) :
    (ofCalls calls).Renders (after (calls.map Call.any)) :=
  Renders.foldl (d := {}) ⟨rfl, rfl⟩ calls

/-- A dispatcher and a table answer every question alike. -/
structure Mirrors (d : Dispatcher) (s : HandlerTable PacketType Id) : Prop where
  dispatch : ∀ p, d.dispatch p = Except.map AnyPacket.known (s.dispatch p.any)
  mapError : ∀ e, d.mapError e = Option.map AnyPacket.known (s.mapError e)
  handles : ∀ t, d.handles t = s.handles t
  handledTypes : d.handledTypes = s.handledTypes

theorem Renders.entryAt?_eq (h : Renders d s) (t : PacketType) :
    s.entryAt? t = (d.handler? t).map fun k => k.typed.keep := by
  unfold HandlerTable.entryAt? AList.lookup handler?
  rw [h.entries]
  induction d.handlers with
  | nil => rfl
  | cons k hs ih =>
    by_cases ht : k.type = t
    · subst ht
      rw [List.find?_cons_of_pos (by simp)]
      exact List.dlookup_cons_eq _ _ _
    · rw [List.find?_cons_of_neg (by simpa using ht), ← ih]
      exact List.dlookup_cons_ne _ _ (Ne.symm ht)

theorem Renders.mirrors (h : Renders d s) : Mirrors d s where
  dispatch p := by
    unfold Dispatcher.dispatch HandlerTable.dispatch
    have he : s.entryAt? p.any.type = _ := h.entryAt?_eq p.type
    rw [he]
    cases d.handler? p.type with
    | none => rfl
    | some k => exact (k.run_keep p).symm
  mapError e := by
    unfold Dispatcher.mapError HandlerTable.mapError
    rw [h.mapper]
    cases d.mapper with
    | none => rfl
    | some f =>
      have hk : AnyPacket.known ∘ Packet.any = id := funext Packet.known_any
      show f e = ((f e).map Packet.any).map AnyPacket.known
      rw [Option.map_map, hk, Option.map_id, id]
  handles t := by
    unfold Dispatcher.handles HandlerTable.handles
    rw [h.entryAt?_eq, Option.isSome_map]
  handledTypes := by
    unfold Dispatcher.handledTypes HandlerTable.handledTypes HandlerTable.names
    rw [h.entries, List.map_map]
    rfl

/-- **The last handler of its very type gets a request.** This holds of any packet types, of
handlers with whatever effects, and of any history of installations; and the dispatcher of the known
packet types answers as the table of the same history. -/
theorem follows_last :
    (∀ (T : Type) [DecidableEq T] [PacketKind T] (m : Type → Type) [Monad m]
      (calls : List (HandlerTable.Call T m)), HandlerTable.Follows calls) ∧
    ∀ calls : List Call, (ofCalls calls).Mirrors (after (calls.map Call.any)) :=
  ⟨fun _ _ _ _ _ calls => HandlerTable.follows calls, fun calls => (renders_ofCalls calls).mirrors⟩

/-- A type of the same name and hash is another type. -/
example (h : Handler) (ht : h.type = .echo) (text : String) :
    (ofCalls [.onReceive h]).dispatch (.clientEcho ⟨text⟩) = .error (.handlerMissing "Echo") := by
  obtain ⟨t, f⟩ := h
  cases ht
  rfl

end Dispatcher
end PacketRpc
