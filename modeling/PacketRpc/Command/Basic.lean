import PacketRpc.Packet.Basic

/-!
# Commands

What the command line can be told to do: have a server calculate, or read and write the packets of
the calculator without a server.
-/

namespace PacketRpc

/-- Something to calculate. -/
inductive Calculation
  | sum (values : List Binary32)
  | mean (kind : MeanKind) (values : List Binary32)
  deriving DecidableEq

/-- The request for a calculation. -/
def Calculation.request : Calculation → Packet
  | sum values => .calcSum ⟨values⟩
  | mean kind values => .calcMean ⟨kind, values⟩

/-- Something to do. -/
inductive Command
  /-- Ask a server. -/
  | calculate (c : Calculation)
  /-- Show the packet that a hexadecimal text stands for. -/
  | decode (hex : String)
  /-- Write a request as hexadecimal text. -/
  | encode (c : Calculation)
  deriving DecidableEq

/-- A whole command line: what to do, and which server to ask. -/
structure CommandLine where
  host : String
  port : UInt16
  timeoutMs : UInt64
  command : Command
  deriving DecidableEq

end PacketRpc
