import PacketRpc.Packet.Content

/-!
# Sums and means

Values are single-precision numbers. Sums run from the first value to the last in single precision,
beginning with the negative zero, which no addition can tell from nothing. The geometric mean
multiplies in double precision and rounds only its result.
-/

namespace PacketRpc.Calculator

/-- The number to calculate with. -/
def ofBinary (x : Binary32) : Float32 := Float32.ofBits x.bits

/-- The bits of a calculated number. -/
def toBinary (x : Float32) : Binary32 := ⟨x.toBits⟩

/-- The sum of numbers, from the first to the last. -/
def total (xs : List Float32) : Float32 := xs.foldl (· + ·) (Float32.ofBits 0x80000000)

/-- How many numbers there are, as a number. -/
def count (xs : List Float32) : Float32 := Float32.ofNat xs.length

/-- The sum divided by the count. -/
def arithmeticMean (xs : List Float32) : Float32 := total xs / count xs

/-- The root of the product whose degree is the count. -/
def geometricMean (xs : List Float32) : Float32 :=
  let product := xs.foldl (fun p x => p * x.toFloat) 1
  (Float.pow product (1 / Float.ofNat xs.length)).toFloat32

/-- The count divided by the sum of the reciprocals. -/
def harmonicMean (xs : List Float32) : Float32 := count xs / total (xs.map (1 / ·))

/-- The mean of a kind. -/
def mean : MeanKind → List Float32 → Float32
  | .arithmetic => arithmeticMean
  | .geometric => geometricMean
  | .harmonic => harmonicMean

/-- The answer to a request for a sum. -/
def calculateSum (request : CalcSum) : RpcResult := ⟨toBinary (total (request.values.map ofBinary))⟩

/-- The answer to a request for a mean; of no values there is none. -/
def calculateMean (request : CalcMean) : Except String RpcResult :=
  if request.values.isEmpty then .error "No values provided"
  else .ok ⟨toBinary (mean request.kind (request.values.map ofBinary))⟩

end PacketRpc.Calculator
