import PacketRpc.Packet.Content

/-!
# Packets

A packet is the content of one of the known packet types. The types are told apart by themselves:
two of them may share a name, a hash or both.
-/

namespace PacketRpc

/-- The known packet types. -/
inductive PacketType
  | primitives
  | demoInner
  | impostor
  | everything
  | calcSum
  | calcMean
  | rpcResult
  | rpcError
  | echo
  | clientEcho
  | unhandled
  | ping
  | nullHash
  deriving DecidableEq, Repr

/-- A packet of some type, with its content. References make packets trees. -/
inductive Packet
  | primitives (content : Primitives)
  | demoInner (content : DemoInner)
  | impostor (content : Impostor)
  | everything (content : Everything Packet)
  | calcSum (content : CalcSum)
  | calcMean (content : CalcMean)
  | rpcResult (content : RpcResult)
  | rpcError (content : RpcError)
  | echo (content : Echo)
  | clientEcho (content : Echo)
  | unhandled (content : Unhandled)
  | ping (content : Ping)
  | nullHash (content : NullHash)

namespace PacketType

/-- The name that packets of the type carry. -/
def name : PacketType → String
  | primitives => "Primitives"
  | demoInner => "DemoInner"
  | impostor => "Impostor"
  | everything => "Everything"
  | calcSum => "CalcSum"
  | calcMean => "CalcMean"
  | rpcResult => "RpcResult"
  | rpcError => "RpcError"
  | echo | clientEcho => "Echo"
  | unhandled => "Unhandled"
  | ping => "Ping"
  | nullHash => "NullHash"

/-- The hash that packets of the type carry. -/
def hash : PacketType → PacketHash
  | primitives => ⟨2094664245053439627⟩
  | demoInner | impostor => ⟨5393010329660641494⟩
  | everything => ⟨-5766039731982384765⟩
  | calcSum => ⟨909162675578853656⟩
  | calcMean => ⟨320241129451081441⟩
  | rpcResult => ⟨-854811139817573361⟩
  | rpcError => ⟨6726748588392692350⟩
  | echo | clientEcho => ⟨555092319884163067⟩
  | unhandled => ⟨8421307767394030102⟩
  | ping => ⟨-5163352988392356548⟩
  | nullHash => PacketHash.null

/-- What a packet of the type holds. -/
def Content : PacketType → Type
  | primitives => Primitives
  | demoInner => DemoInner
  | impostor => Impostor
  | everything => Everything Packet
  | calcSum => CalcSum
  | calcMean => CalcMean
  | rpcResult => RpcResult
  | rpcError => RpcError
  | echo | clientEcho => Echo
  | unhandled => Unhandled
  | ping => Ping
  | nullHash => NullHash

/-- The packet of the type with the given content. -/
def packet : (t : PacketType) → t.Content → Packet
  | primitives, c => .primitives c
  | demoInner, c => .demoInner c
  | impostor, c => .impostor c
  | everything, c => .everything c
  | calcSum, c => .calcSum c
  | calcMean, c => .calcMean c
  | rpcResult, c => .rpcResult c
  | rpcError, c => .rpcError c
  | echo, c => .echo c
  | clientEcho, c => .clientEcho c
  | unhandled, c => .unhandled c
  | ping, c => .ping c
  | nullHash, c => .nullHash c

/-- The packet of the type in which every field is zero, false, empty, absent or the first
member. -/
def blank : PacketType → Packet
  | primitives => .primitives ⟨false, 0, 0, ""⟩
  | demoInner => .demoInner ⟨0⟩
  | impostor => .impostor ⟨0⟩
  | everything => .everything {}
  | calcSum => .calcSum ⟨[]⟩
  | calcMean => .calcMean ⟨.arithmetic, []⟩
  | rpcResult => .rpcResult ⟨⟨0⟩⟩
  | rpcError => .rpcError ⟨""⟩
  | echo => .echo ⟨""⟩
  | clientEcho => .clientEcho ⟨""⟩
  | unhandled => .unhandled ⟨0⟩
  | ping => .ping ⟨⟩
  | nullHash => .nullHash ⟨0⟩

end PacketType

namespace Packet

instance : Inhabited Packet := ⟨.ping ⟨⟩⟩

/-- The type of a packet. -/
def type : Packet → PacketType
  | primitives _ => .primitives
  | demoInner _ => .demoInner
  | impostor _ => .impostor
  | everything _ => .everything
  | calcSum _ => .calcSum
  | calcMean _ => .calcMean
  | rpcResult _ => .rpcResult
  | rpcError _ => .rpcError
  | echo _ => .echo
  | clientEcho _ => .clientEcho
  | unhandled _ => .unhandled
  | ping _ => .ping
  | nullHash _ => .nullHash

/-- The content of a packet. -/
def content : (p : Packet) → p.type.Content
  | primitives c => c
  | demoInner c => c
  | impostor c => c
  | everything c => c
  | calcSum c => c
  | calcMean c => c
  | rpcResult c => c
  | rpcError c => c
  | echo c => c
  | clientEcho c => c
  | unhandled c => c
  | ping c => c
  | nullHash c => c

/-- The name of a packet. -/
def name (p : Packet) : String := p.type.name

/-- The hash of a packet. -/
def hash (p : Packet) : PacketHash := p.type.hash

/-- True when the packet is of the given type, whatever its name and hash. -/
def is (p : Packet) (t : PacketType) : Bool := decide (p.type = t)

/-- The content of a packet of the given type; nothing for a packet of another. -/
def contentAs? (t : PacketType) (p : Packet) : Option t.Content :=
  if h : p.type = t then some (h ▸ p.content) else none

end Packet

namespace Everything

/-- An `Everything` in which each field shows something of its kind. -/
def sample : Everything Packet where
  aBool := [true, false, true, true, false, false, false, false, true]
  aByte := [-1, 0, 1]
  aColor := [.blue, .red]
  aDouble := [⟨0x3FF8000000000000⟩, ⟨0x0010000000000000⟩]
  aFloat := [⟨0x40500000⟩]
  aInner := [⟨1⟩, ⟨2⟩]
  aInt := (List.range 300).map Int32.ofNat
  aLong := [-9223372036854775808]
  aRef := [none, some (.demoInner ⟨5⟩)]
  aShort := [32767, -32768]
  aString := ["", String.ofList (List.replicate 260 'x')]
  aUbyte := [255, 0]
  aUshort := [1, 65535]
  aWide := [⟨0⟩, ⟨299⟩]
  fBool := true
  fByte := -7
  fColor := .green
  fDouble := ⟨0xC004000000000000⟩
  fFloat := ⟨0x3E000000⟩
  fInner := ⟨88⟩
  fInt := -2147483648
  fLong := 9223372036854775807
  fRef := some (.primitives ⟨true, 3, -4, "ref"⟩)
  fShort := -300
  fString := "ünïcødé"
  fUbyte := 200
  fUshort := 65000
  fWide := ⟨280⟩

end Everything
end PacketRpc
