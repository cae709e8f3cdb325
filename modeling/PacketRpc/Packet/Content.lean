import PacketRpc.Codec.Scalar
import PacketRpc.Codec.Flags
import PacketRpc.Codec.Enumerated

/-!
# Contents of packets

One structure per packet type, with a field for each of its fields. `Everything` has one field of
every kind, single and in sequence; the packets it refers to are its parameter, so that the type
of all packets can be built from it.
-/

namespace PacketRpc

/-- A colour of the demonstration packets. -/
inductive DemoColor
  | red
  | green
  | blue
  deriving DecidableEq, Repr, Inhabited

instance : Enumerated DemoColor where
  name := "DemoColor"
  memberCount := 3
  ordinal
    | .red => 0
    | .green => 1
    | .blue => 2
  ofOrdinal?
    | 0 => some .red
    | 1 => some .green
    | 2 => some .blue
    | _ => none
  label
    | .red => "Red"
    | .green => "Green"
    | .blue => "Blue"

/-- The kinds of mean that can be asked for. -/
inductive MeanKind
  | arithmetic
  | geometric
  | harmonic
  deriving DecidableEq, Repr, Inhabited

instance : Enumerated MeanKind where
  name := "CalcMeanType"
  memberCount := 3
  ordinal
    | .arithmetic => 0
    | .geometric => 1
    | .harmonic => 2
  ofOrdinal?
    | 0 => some .arithmetic
    | 1 => some .geometric
    | 2 => some .harmonic
    | _ => none
  label
    | .arithmetic => "Arithmetic"
    | .geometric => "Geometric"
    | .harmonic => "Harmonic"

/-- An enumeration large enough to need two bytes. -/
abbrev Wide := Ordinal "Wide" 300

structure Primitives where
  b : Bool
  i : Int32
  l : Int64
  s : String
  deriving DecidableEq, Inhabited

structure DemoInner where
  value : Int32
  deriving DecidableEq, Inhabited

/-- A shape of its own under the hash of `DemoInner`. -/
structure Impostor where
  x : Int64
  deriving DecidableEq, Inhabited

/-- One field of every kind, single and in sequence. -/
structure Everything (Packet : Type) where
  aBool : List Bool := []
  aByte : List Int8 := []
  aColor : List DemoColor := []
  aDouble : List Binary64 := []
  aFloat : List Binary32 := []
  aInner : List DemoInner := []
  aInt : List Int32 := []
  aLong : List Int64 := []
  aRef : List (Option Packet) := []
  aShort : List Int16 := []
  aString : List String := []
  aUbyte : List UInt8 := []
  aUshort : List UInt16 := []
  aWide : List Wide := []
  fBool : Bool := false
  fByte : Int8 := 0
  fColor : DemoColor := .red
  fDouble : Binary64 := ⟨0⟩
  fFloat : Binary32 := ⟨0⟩
  fInner : DemoInner := ⟨0⟩
  fInt : Int32 := 0
  fLong : Int64 := 0
  fRef : Option Packet := none
  fShort : Int16 := 0
  fString : String := ""
  fUbyte : UInt8 := 0
  fUshort : UInt16 := 0
  fWide : Wide := ⟨0⟩

/-- A request for the sum of some values. -/
structure CalcSum where
  values : List Binary32
  deriving DecidableEq, Inhabited

/-- A request for a mean of some values. -/
structure CalcMean where
  kind : MeanKind
  values : List Binary32
  deriving DecidableEq, Inhabited

/-- The value a request has led to. -/
structure RpcResult where
  value : Binary32
  deriving DecidableEq, Inhabited

/-- The error a request has led to. -/
structure RpcError where
  message : String
  deriving DecidableEq, Inhabited

/-- A text to be sent back; two packet types, one for each end, have this content. -/
structure Echo where
  text : String
  deriving DecidableEq, Inhabited

/-- A request that no handler takes. -/
structure Unhandled where
  n : Int32
  deriving DecidableEq, Inhabited

/-- A packet without fields. -/
structure Ping where
  deriving DecidableEq, Inhabited

/-- A shape whose hash is the reserved one, so that it cannot be registered. -/
structure NullHash where
  x : Int32
  deriving DecidableEq, Inhabited

end PacketRpc
