import PacketRpc.Net.Address
import PacketRpc.Duration

/-!
# Client options

Which server a client asks, and how long it waits.
-/

namespace PacketRpc

/-- What a client runs with. -/
structure ClientOptions where
  host : String := "localhost"
  port : UInt16 := defaultPort
  connectTimeout : Duration := .ofMilliseconds 5000
  readTimeout : Duration := .ofMilliseconds 1000
  /-- How long a closed connection lingers; none leaves it to the system. -/
  linger : Option Duration := some (.ofMilliseconds 500)
  /-- Whether small packets are sent at once. -/
  noDelay : Bool := true
  deriving DecidableEq

end PacketRpc
