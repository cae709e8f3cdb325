import PacketRpc.Settings.Basic
import PacketRpc.Duration

/-!
# Server options

What a server runs with. The length of the listen queue follows the number of workers unless it is
given on its own; it never overflows, but a worker count counts only modulo its width.
-/

namespace PacketRpc

/-- A product, or the greatest number if the product is greater. -/
def saturatedProduct (a b : UInt32) : UInt32 :=
  UInt32.ofNat (min (a.toNat * b.toNat) (UInt32.size - 1))

/-- What a server runs with. -/
structure ServerOptions where
  bindAddress : SocketAddress := .anyHost
  workers : UInt64 := 10
  queueCapacity : UInt64 := 1000
  /-- How many connections may wait to be accepted. -/
  backlog : UInt32 := 500
  shrinkTimeout : Duration := .ofMilliseconds 3000
  readTimeout : Duration := .ofMilliseconds 30000
  deriving DecidableEq

namespace ServerOptions

/-- How many connections may wait for each worker. -/
def backlogPerWorker : UInt32 := 50

/-- Sets the number of workers, and the listen queue to match: room for at least one. -/
def withWorkers (o : ServerOptions) (workers : UInt64) : ServerOptions :=
  { o with workers, backlog := max (saturatedProduct workers.toUInt32 backlogPerWorker) 1 }

end ServerOptions

/-- The options that settings make. -/
def Settings.serverOptions (s : Settings) : ServerOptions :=
  { ({ bindAddress := s.network.bindAddress } : ServerOptions).withWorkers s.pool.workers with
    queueCapacity := s.pool.queueCapacity
    backlog := saturatedProduct s.network.backlogPerWorker s.pool.workers.toUInt32
    shrinkTimeout := .ofMilliseconds s.pool.shrinkTimeoutMs.toNat
    readTimeout := .ofMilliseconds s.network.readTimeoutMs.toNat }

end PacketRpc
