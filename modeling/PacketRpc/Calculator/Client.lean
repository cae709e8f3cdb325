import PacketRpc.Calculator.Error
import PacketRpc.Calculator.Service
import PacketRpc.Client.Exchange

/-!
# The calculator client

Asks a calculator for a value. A response that carries an error becomes an error.
-/

namespace PacketRpc.Calculator

/-- A client that knows the calculator's packets. -/
def client (o : ClientOptions) : Client := { options := o, registry }

/-- The value that a response carries. -/
def valueOf : Packet → Except CalcError Binary32
  | .rpcResult c => .ok c.value
  | .rpcError c => .error (.reported c.message)
  | p => .error (.unexpectedResponse p.name)

/-- Asks for the value of a request. -/
def ask (o : ClientOptions) (route : Route) (request : Packet) : Except CalcError Binary32 :=
  match (client o).send route request with
  | .ok response => valueOf response
  | .error e => .error (.client e)

/-- Asks for a sum. -/
def sum (o : ClientOptions) (route : Route) (values : List Binary32) : Except CalcError Binary32 :=
  ask o route (.calcSum ⟨values⟩)

/-- Asks for a mean. -/
def meanOf (o : ClientOptions) (route : Route) (kind : MeanKind) (values : List Binary32) :
    Except CalcError Binary32 :=
  ask o route (.calcMean ⟨kind, values⟩)

end PacketRpc.Calculator
