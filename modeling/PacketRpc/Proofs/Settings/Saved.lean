import PacketRpc.Settings.Load
import PacketRpc.Proofs.Net.AddressText
import PacketRpc.Proofs.Yaml.Library

/-!
# Saved settings load again

All settings are simple content: numbers of at most 64 bits, and an address as its text, in which
every character is visible. So a library that reads back what it writes finds a value for every
setting in the text that it has written (`Settings.ofValue?_of_holdsContent`), and what has been
saved is loaded again (`Settings.saved_reloads`).
-/

namespace PacketRpc

open Yaml

/-! ## Texts of addresses -/

theorem isVisible_of_mem_toDigits {radix n : Nat} (hr : 1 < radix) (hr' : radix ≤ 16) :
    ∀ c ∈ Nat.toDigits radix n, isVisible c = true :=
  fun _ hc => isVisible_of_isAlphanum (Digits.isAlphanum_of_mem_toDigits hr hr' hc)

theorem IPv4.isVisible_text (a : IPv4) : ∀ c ∈ a.text.toList, isVisible c = true := by
  have hdigits (n : Nat) := isVisible_of_mem_toDigits (by decide : 1 < 10) (by decide) (n := n)
  have hpoint : isVisible '.' = true := rfl
  simp only [toList_text, List.mem_append, List.mem_cons]
  grind

theorem IPv6.isVisible_letters (isFirst : Bool) (gs : List UInt16) :
    ∀ c ∈ letters isFirst gs, isVisible c = true := by
  induction gs generalizing isFirst with
  | nil => exact nofun
  | cons g gs ih =>
    have hdigits := isVisible_of_mem_toDigits (by decide : 1 < 16) (by decide) (n := g.toNat)
    have hcolon : isVisible ':' = true := rfl
    simp only [letters, List.mem_append]
    rintro c (hc | hc | hc)
    · cases isFirst with
      | true => cases hc
      | false => rw [List.mem_singleton.1 hc, hcolon]
    · exact hdigits c hc
    · exact ih false c hc

theorem IPv6.isVisible_text (a : IPv6) : ∀ c ∈ a.text.toList, isVisible c = true := by
  have hcolons : ∀ c ∈ "::".toList, isVisible c = true := List.all_eq_true.1 rfl
  have hfront : ∀ c ∈ "::ffff:".toList, isVisible c = true := List.all_eq_true.1 rfl
  have hgroups (gs : List UInt16) : ∀ c ∈ (groupsText gs).toList, isVisible c = true := by
    rw [toList_groupsText]
    exact isVisible_letters true gs
  rw [text]
  split
  · next high low _ =>
    have hnumbers := IPv4.isVisible_text (IPv4.ofGroups high low)
    simp only [String.toList_append, List.mem_append]
    grind
  · dsimp only
    split
    · simp only [String.toList_append, List.mem_append]
      grind
    · exact hgroups _

theorem SocketAddress.isVisible_text (a : SocketAddress) :
    ∀ c ∈ a.text.toList, isVisible c = true := by
  have hdigits (n : Nat) := isVisible_of_mem_toDigits (by decide : 1 < 10) (by decide) (n := n)
  have hopen : isVisible '[' = true := rfl
  have hclose : isVisible ']' = true := rfl
  have hcolon : isVisible ':' = true := rfl
  have hpercent : isVisible '%' = true := rfl
  cases a with
  | v4 host port =>
    have hhost := host.isVisible_text
    simp only [text, String.toList_append, Nat.toList_repr, List.mem_append]
    grind
  | v6 host scope port =>
    have hhost := host.isVisible_text
    rw [text]
    split <;> simp only [String.toList_append, Nat.toList_repr, List.mem_append] <;> grind

/-! ## Reading back -/

namespace Settings

variable {lib : Library}

theorem isSimple_content (s : Settings) : s.content.isSimple = true := by
  have haddress : s.network.bindAddress.text.toList.all isVisible = true :=
    List.all_eq_true.2 s.network.bindAddress.isVisible_text
  have hword (n : UInt64) : n.toNat < UInt64.size := n.toNat_lt
  have hbacklog : s.network.backlogPerWorker.toNat < UInt64.size :=
    Nat.lt_trans s.network.backlogPerWorker.toNat_lt (by decide)
  have hkeys : areKeys ["network", "pool"] = true := by decide
  have hnetwork : areKeys ["bind_addr", "backlog_per_worker", "read_timeout_ms"] = true := by decide
  have hpool : areKeys ["workers", "queue_capacity", "shrink_timeout_ms"] = true := by decide
  simp [content, Content.isSimple, isMapping, Datum.isSimple, hkeys, hnetwork, hpool, haddress,
    hword, hbacklog]

/-- All values that settings have. -/
def overrides (s : Settings) : Overrides where
  bindAddress := some s.network.bindAddress
  backlogPerWorker := some s.network.backlogPerWorker
  readTimeoutMs := some s.network.readTimeoutMs
  workers := some s.pool.workers
  queueCapacity := some s.pool.queueCapacity
  shrinkTimeoutMs := some s.pool.shrinkTimeoutMs

theorem override_overrides (s t : Settings) : t.override s.overrides = s := rfl

section
variable {V α β : Type} {R : V → α → Prop} {found : List (String × V)} {es : List (String × α)}
  {key : String} {a : α}

theorem map_fst_eq (h : List.Forall₂ (fun x e => x.1 = e.1 ∧ R x.2 e.2) found es) :
    found.map Prod.fst = es.map Prod.fst := by
  induction h with
  | nil => rfl
  | cons hx _ ih => rw [List.map_cons, List.map_cons, hx.1, ih]

/-- Where keys differ, each is found once, with what it has been given. -/
theorem exists_filter_eq (h : List.Forall₂ (fun x e => x.1 = e.1 ∧ R x.2 e.2) found es)
    (hn : (es.map Prod.fst).Nodup) (hm : (key, a) ∈ es) :
    ∃ v, found.filter (·.1 == key) = [(key, v)] ∧ R v a := by
  induction h with
  | nil => cases hm
  | @cons x e found es hx hall ih =>
    obtain ⟨k, v⟩ := x
    obtain ⟨k', b⟩ := e
    obtain ⟨hk, hv⟩ : k = k' ∧ R v b := hx
    subst hk
    obtain ⟨hnotin, hn⟩ := List.nodup_cons.1 hn
    rcases List.mem_cons.1 hm with he | hm
    · obtain ⟨rfl, rfl⟩ := Prod.mk.inj he
      have hnone : found.filter (·.1 == key) = [] := by
        refine List.filter_eq_nil_iff.2 fun y hy hyk => hnotin ?_
        rw [← map_fst_eq hall, ← eq_of_beq hyk]
        exact List.mem_map_of_mem hy
      exact ⟨v, by rw [List.filter_cons_of_pos (by simp), hnone], hv⟩
    · obtain ⟨w, hw, hwR⟩ := ih hn hm
      have hne : k ≠ key := by
        rintro rfl
        exact hnotin (List.mem_map.2 ⟨_, hm, rfl⟩)
      exact ⟨w, by rw [List.filter_cons_of_neg (by simpa using hne), hw], hwR⟩

theorem setting?_eq (h : List.Forall₂ (fun x e => x.1 = e.1 ∧ R x.2 e.2) found es)
    (hn : (es.map Prod.fst).Nodup) (hm : (key, a) ∈ es) {read : V → Option β} {b : β}
    (hr : ∀ v, R v a → read v = some b) : setting? found key read = some (some b) := by
  obtain ⟨v, hv, hR⟩ := exists_filter_eq h hn hm
  rw [setting?, hv]
  exact congrArg (Option.map some) (hr v hR)

end

theorem exists_section {found : List (String × lib.Value)} {c : Content} {key : String}
    {es : List (String × Datum)}
    (h : List.Forall₂ (fun x e => x.1 = e.1 ∧ lib.HoldsEach lib.Holds x.2 e.2) found c)
    (hn : (c.map Prod.fst).Nodup) (hm : (key, es) ∈ c) :
    ∃ entries, lib.section? found key = some entries ∧
      List.Forall₂ (fun x e => x.1 = e.1 ∧ lib.Holds x.2 e.2) entries es := by
  obtain ⟨v, hv, entries, hentries, hall⟩ := exists_filter_eq h hn hm
  refine ⟨entries, ?_, hall⟩
  simp [Library.section?, setting?, hv, hentries]

/-- A document of all settings has a value for each. -/
theorem ofValue?_of_holdsContent {s : Settings} {v : lib.Value}
    (h : lib.HoldsContent v s.content) : Overrides.ofValue? lib v = some s.overrides := by
  obtain ⟨sections, hsections, hfound⟩ := h
  have haddress (v : lib.Value) (hv : lib.Holds v (.text s.network.bindAddress.text)) :
      lib.address? v = some s.network.bindAddress := by
    rw [Library.address?, show lib.text? v = some _ from hv, Option.bind_some,
      SocketAddress.ofText?_text]
  have hnarrow (n : UInt32) (v : lib.Value) (hv : lib.Holds v (.unsigned n.toNat)) :
      lib.uint32? v = some n := hv.1 n rfl
  have hwide (n : UInt64) (v : lib.Value) (hv : lib.Holds v (.unsigned n.toNat)) :
      lib.uint64? v = some n := hv.2 n rfl
  have hsectionKeys : (s.content.map Prod.fst).Nodup := (by decide : ["network", "pool"].Nodup)
  obtain ⟨network, hnetwork, hn⟩ := exists_section hfound hsectionKeys List.mem_cons_self
  obtain ⟨pool, hpool, hp⟩ :=
    exists_section hfound hsectionKeys (List.mem_cons_of_mem _ List.mem_cons_self)
  have hnetworkKeys : ["bind_addr", "backlog_per_worker", "read_timeout_ms"].Nodup := by decide
  have hpoolKeys : ["workers", "queue_capacity", "shrink_timeout_ms"].Nodup := by decide
  rw [Overrides.ofValue?, hsections, Option.bind_eq_bind, Option.bind_some, hnetwork,
    Option.bind_eq_bind, Option.bind_some, hpool, Option.bind_eq_bind, Option.bind_some,
    setting?_eq hn hnetworkKeys (by simp) haddress,
    setting?_eq hn hnetworkKeys (by simp) (hnarrow s.network.backlogPerWorker),
    setting?_eq hn hnetworkKeys (by simp) (hwide s.network.readTimeoutMs),
    setting?_eq hp hpoolKeys (by simp) (hwide s.pool.workers),
    setting?_eq hp hpoolKeys (by simp) (hwide s.pool.queueCapacity),
    setting?_eq hp hpoolKeys (by simp) (hwide s.pool.shrinkTimeoutMs)]
  rfl

/-- **What has been saved is loaded again**, from wherever its text stands. -/
theorem saved_reloads (hlib : lib.ReadsBack) (s : Settings) :
    ∃ text, lib.emit s.content = .ok text ∧
      (∀ write path, s.save lib write path = (write path text).mapError (.unreadable path)) ∧
      ∀ files path, files path = .ok text → ofFile lib files path = .ok s := by
  obtain ⟨text, v, hemit, hparse, hholds⟩ := hlib s.content s.isSimple_content
  refine ⟨text, hemit, fun write path => ?_, fun files path hfile => ?_⟩
  · rw [save, hemit]
    dsimp only
    cases write path text <;> rfl
  · have hread : ofText? lib text = some s := by
      rw [ofText?, Overrides.ofText?, hparse, Option.bind_some, ofValue?_of_holdsContent hholds,
        Option.map_some, override_overrides]
    rw [ofFile, hfile]
    simp only [hread]

theorem saved_reloads_scoped :
    let lib := Document.library
    let s : Settings :=
      { network :=
          { bindAddress := .v6 ⟨[0xFE80, 0, 0, 0, 0, 0, 0, 1], rfl⟩ 4294967295 65535
            backlogPerWorker := 4294967295
            readTimeoutMs := 18446744073709551615 }
        pool := { workers := 0, queueCapacity := 18446744073709551615, shrinkTimeoutMs := 0 } }
    let text :=
      "network:\n  bind_addr: '[fe80::1%4294967295]:65535'\n  backlog_per_worker: 4294967295\n" ++
        "  read_timeout_ms: 18446744073709551615\npool:\n  workers: 0\n" ++
        "  queue_capacity: 18446744073709551615\n  shrink_timeout_ms: 0\n"
    let write : String → String → Except IoCause Unit := fun _ t =>
      if t = text then .ok () else .error (.described "refused")
    lib.ReadsBack ∧ s.save lib write "server.yaml" = .ok () ∧
      ofFile lib (fun _ => .ok text) "server.yaml" = .ok s := by
  intro lib s text write
  have htext : lib.emit s.content = .ok text := by decide +kernel
  obtain ⟨text', hemit, hsave, hload⟩ := saved_reloads Document.readsBack_library s
  obtain rfl : text = text' := Except.ok.inj (htext.symm.trans hemit)
  refine ⟨Document.readsBack_library, ?_, hload _ "server.yaml" rfl⟩
  rw [hsave write "server.yaml"]
  show (if text = text then _ else _ : Except IoCause Unit).mapError _ = _
  rw [if_pos rfl]
  rfl

end Settings
end PacketRpc
