import PacketRpc.Net.Address
import PacketRpc.Settings.Error

/-!
# Settings

The settings of a server, in two sections. Every setting has a value from the start, and any of them
can be overridden on its own.
-/

namespace PacketRpc

/-- Settings of the network. -/
structure NetworkSettings where
  /-- Where to listen. -/
  bindAddress : SocketAddress := .anyHost
  /-- How many connections may wait to be accepted, for each worker. -/
  backlogPerWorker : UInt32 := 50
  /-- How long a request may take to arrive, in milliseconds. -/
  readTimeoutMs : UInt64 := 30000
  deriving DecidableEq

/-- Settings of the worker pool. -/
structure PoolSettings where
  /-- How many workers to start with. -/
  workers : UInt64 := 10
  /-- How many accepted connections may wait for a worker. -/
  queueCapacity : UInt64 := 1000
  /-- How long to wait for room for a signal to leave, in milliseconds. -/
  shrinkTimeoutMs : UInt64 := 3000
  deriving DecidableEq

/-- All settings. -/
structure Settings where
  network : NetworkSettings := {}
  pool : PoolSettings := {}
  deriving DecidableEq

instance : Inhabited Settings := ⟨{}⟩

namespace Settings

/-- Refuses settings that no server can run with. -/
def validate (s : Settings) : Except ConfigError Unit :=
  if s.pool.workers = 0 then .error (.invalid "pool.workers must be at least 1")
  else if s.pool.queueCapacity = 0 then .error (.invalid "pool.queue_capacity must be at least 1")
  else .ok ()

end Settings

/-- Values for some of the settings. -/
structure Overrides where
  bindAddress : Option SocketAddress := none
  /-- Replaces only the port of the address. -/
  port : Option UInt16 := none
  backlogPerWorker : Option UInt32 := none
  readTimeoutMs : Option UInt64 := none
  workers : Option UInt64 := none
  queueCapacity : Option UInt64 := none
  shrinkTimeoutMs : Option UInt64 := none
  deriving DecidableEq

/-- Puts values in place of those in the settings. -/
def Settings.override (s : Settings) (o : Overrides) : Settings :=
  let address := o.bindAddress.getD s.network.bindAddress
  { network :=
      { bindAddress := (o.port.map address.withPort).getD address
        backlogPerWorker := o.backlogPerWorker.getD s.network.backlogPerWorker
        readTimeoutMs := o.readTimeoutMs.getD s.network.readTimeoutMs }
    pool :=
      { workers := o.workers.getD s.pool.workers
        queueCapacity := o.queueCapacity.getD s.pool.queueCapacity
        shrinkTimeoutMs := o.shrinkTimeoutMs.getD s.pool.shrinkTimeoutMs } }

end PacketRpc
