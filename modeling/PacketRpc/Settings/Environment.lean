import PacketRpc.Settings.Basic
import PacketRpc.Net.AddressText

/-!
# Settings from the environment

Each setting has a variable of its own. A variable that is not set, or whose text makes no value for
its setting, changes nothing.
-/

namespace PacketRpc

/-- The variables that are set, by name. -/
abbrev Environment := String → Option String

/-- The number below `bound` that a variable holds. -/
def Environment.unsigned? (env : Environment) (bound : Nat) (name : String) : Option Nat :=
  (env name).bind (Digits.unsigned? bound)

/-- The values that the environment has for settings. -/
def Overrides.ofEnvironment (env : Environment) : Overrides where
  bindAddress := (env "BLUEPACKET_BIND").bind SocketAddress.ofText?
  port := (env.unsigned? UInt16.size "BLUEPACKET_PORT").map UInt16.ofNat
  backlogPerWorker := (env.unsigned? UInt32.size "BLUEPACKET_BACKLOG_PER_WORKER").map UInt32.ofNat
  readTimeoutMs := (env.unsigned? UInt64.size "BLUEPACKET_READ_TIMEOUT_MS").map UInt64.ofNat
  workers := (env.unsigned? UInt64.size "BLUEPACKET_WORKERS").map UInt64.ofNat
  queueCapacity := (env.unsigned? UInt64.size "BLUEPACKET_QUEUE_CAPACITY").map UInt64.ofNat
  shrinkTimeoutMs := (env.unsigned? UInt64.size "BLUEPACKET_SHRINK_TIMEOUT_MS").map UInt64.ofNat

end PacketRpc
