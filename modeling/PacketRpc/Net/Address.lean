/-!
# Socket addresses

A socket address is a host address of the fourth or sixth version of the Internet Protocol with a
port. Addresses of the sixth version also have a scope, which is zero where none is meant.
-/

namespace PacketRpc

/-- A host address of four bytes. -/
structure IPv4 where
  first : UInt8
  second : UInt8
  third : UInt8
  fourth : UInt8
  deriving DecidableEq, Repr, Inhabited

/-- A host address of eight groups of two bytes. -/
structure IPv6 where
  groups : List UInt16
  eight : groups.length = 8
  deriving DecidableEq

/-- Where a server listens. -/
inductive SocketAddress
  | v4 (host : IPv4) (port : UInt16)
  | v6 (host : IPv6) (scope : UInt32) (port : UInt16)
  deriving DecidableEq

namespace SocketAddress

/-- The port of an address. -/
def port : SocketAddress → UInt16
  | v4 _ port | v6 _ _ port => port

/-- The same host with another port. -/
def withPort : SocketAddress → UInt16 → SocketAddress
  | v4 host _, port => v4 host port
  | v6 host scope _, port => v6 host scope port

end SocketAddress

/-- The port that is taken where none is given. -/
def defaultPort : UInt16 := 5900

/-- All hosts, with the usual port. -/
def SocketAddress.anyHost : SocketAddress := .v4 ⟨0, 0, 0, 0⟩ defaultPort

instance : Inhabited SocketAddress := ⟨.anyHost⟩

end PacketRpc
