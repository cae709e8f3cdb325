import PacketRpc.Net.AddressText
import PacketRpc.Settings.Basic
import PacketRpc.Yaml.Library

/-!
# Settings files

A settings file is a YAML mapping with a section for the network and one for the pool. Settings and
sections may be left out and others may stand beside them, but a setting given twice, or with a
value that is none of its kind, spoils the file.
-/

namespace PacketRpc

open Yaml (Library)

/-- The value of a key among entries: none if the key is missing. A key that stands there twice, or
whose value `read` refuses, spoils the entries. -/
def setting? {V α : Type} (entries : List (String × V)) (key : String) (read : V → Option α) :
    Option (Option α) :=
  match entries.filter (·.1 == key) with
  | [] => some none
  | [e] => (read e.2).map some
  | _ => none

namespace Yaml.Library

variable (lib : Library)

/-- The entries of a section; a missing section has none. -/
def section? (entries : List (String × lib.Value)) (key : String) :
    Option (List (String × lib.Value)) :=
  (setting? entries key lib.entries?).map (·.getD [])

/-- An address stands as its text. -/
def address? (v : lib.Value) : Option SocketAddress := (lib.text? v).bind SocketAddress.ofText?

end Yaml.Library

variable (lib : Library)

/-- The values that a document has for settings; none for a document that is no settings file. -/
def Overrides.ofValue? (v : lib.Value) : Option Overrides := do
  let sections ← lib.entries? v
  let network ← lib.section? sections "network"
  let pool ← lib.section? sections "pool"
  return {
    bindAddress := ← setting? network "bind_addr" lib.address?
    backlogPerWorker := ← setting? network "backlog_per_worker" lib.uint32?
    readTimeoutMs := ← setting? network "read_timeout_ms" lib.uint64?
    workers := ← setting? pool "workers" lib.uint64?
    queueCapacity := ← setting? pool "queue_capacity" lib.uint64?
    shrinkTimeoutMs := ← setting? pool "shrink_timeout_ms" lib.uint64? }

/-- The values that the text of a file has for settings. -/
def Overrides.ofText? (text : String) : Option Overrides :=
  (lib.parse? text).bind (ofValue? lib)

namespace Settings

/-- The settings that the text of a file makes: those it has, and the usual ones beside them. -/
def ofText? (text : String) : Option Settings :=
  (Overrides.ofText? lib text).map ({} : Settings).override

/-- All settings, as they are written to a file. -/
def content (s : Settings) : Yaml.Content :=
  [("network",
    [("bind_addr", .text s.network.bindAddress.text),
      ("backlog_per_worker", .unsigned s.network.backlogPerWorker.toNat),
      ("read_timeout_ms", .unsigned s.network.readTimeoutMs.toNat)]),
  ("pool",
    [("workers", .unsigned s.pool.workers.toNat),
      ("queue_capacity", .unsigned s.pool.queueCapacity.toNat),
      ("shrink_timeout_ms", .unsigned s.pool.shrinkTimeoutMs.toNat)])]

end Settings
end PacketRpc
