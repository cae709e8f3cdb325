import PacketRpc.Calculator.Arithmetic
import PacketRpc.Service.Dispatcher
import PacketRpc.Registry

/-!
# The calculator service

The service takes requests for sums and means and answers each with a value or with an error packet
that carries the wording of what went wrong.
-/

namespace PacketRpc.Calculator

/-- The packet types that the calculator and its users exchange. -/
def packetTypes : List PacketType := [.calcSum, .calcMean, .rpcResult, .rpcError]

/-- The registry of the calculator's packets. -/
def registry : Registry := .ofTypes packetTypes

/-- Answers requests for sums. -/
def sumHandler : Handler := ⟨.calcSum, fun c => .response (.rpcResult (calculateSum c))⟩

/-- Answers requests for means. -/
def meanHandler : Handler := ⟨.calcMean, fun c =>
  match calculateMean c with
  | .ok r => .response (.rpcResult r)
  | .error reason => .failure reason⟩

/-- Answers every error with its wording. -/
def errorPacket (e : ServiceError) : Option Packet := some (.rpcError ⟨e.message⟩)

/-- The handlers and the error mapper of the calculator. -/
def dispatcher : Dispatcher :=
  ((({} : Dispatcher).onReceive sumHandler).onReceive meanHandler).onError errorPacket

end PacketRpc.Calculator
