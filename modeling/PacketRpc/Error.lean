import PacketRpc.Packet.Hash
import PacketRpc.SystemError

/-!
# Protocol errors

Each way in which reading, writing or registering packets can fail is a constructor of
`ProtocolError`; its wording is given once, by `ProtocolError.message`, and its class, which is
what peers and clients act upon, by `ProtocolError.kind`.
-/

namespace PacketRpc

/-- The classes into which all errors of the system fall. -/
inductive ErrorKind
  | decodeShort
  | decodeUnknownHash
  | decodeBadEnum
  | decodeInvalid
  | encodeIo
  | duplicateHash
  | handlerMissing
  | handlerFailure
  | timeout
  | transport
  | config
  deriving DecidableEq, Repr

/-- The fixed name of an error class. -/
def ErrorKind.name : ErrorKind → String
  | .decodeShort => "DECODE_SHORT"
  | .decodeUnknownHash => "DECODE_UNKNOWN_HASH"
  | .decodeBadEnum => "DECODE_BAD_ENUM"
  | .decodeInvalid => "DECODE_INVALID"
  | .encodeIo => "ENCODE_IO"
  | .duplicateHash => "DUPLICATE_HASH"
  | .handlerMissing => "HANDLER_MISSING"
  | .handlerFailure => "HANDLER_FAILURE"
  | .timeout => "TIMEOUT"
  | .transport => "TRANSPORT"
  | .config => "CONFIG"

/-- What can go wrong between packets and bytes. -/
inductive ProtocolError
  /-- A read needs more bytes than remain. -/
  | short (needed remaining : Nat)
  /-- No registered packet has this hash. -/
  | unknownHash (hash : PacketHash)
  /-- An ordinal at or beyond the number of members. -/
  | badEnum (name : String) (ordinal : UInt16) (members : Nat)
  /-- A length prefix that is negative. -/
  | invalidLength (length : Int32)
  /-- A sequence too long for its length prefix. -/
  | lengthOverflow (length : Nat)
  /-- The bytes of a text are not UTF-8. -/
  | invalidText
  /-- A second packet type asks for a hash already taken. -/
  | duplicateHash (hash : PacketHash) (existing incoming : String)
  /-- The hash of no packet where a packet must stand. -/
  | nullPacket
  /-- An unfinished packet fills more than the buffer allows. -/
  | packetTooLarge (size max : Nat)
  /-- The sink or source of bytes failed. -/
  | io (cause : IoCause)
  deriving DecidableEq, Repr

namespace ProtocolError

/-- The class of a protocol error. -/
def kind : ProtocolError → ErrorKind
  | short .. => .decodeShort
  | unknownHash _ => .decodeUnknownHash
  | badEnum .. => .decodeBadEnum
  | invalidLength _ | invalidText | nullPacket | packetTooLarge .. => .decodeInvalid
  | lengthOverflow _ | io _ => .encodeIo
  | duplicateHash .. => .duplicateHash

/-- True of the one error that more input can mend. -/
def isIncomplete : ProtocolError → Bool
  | short .. => true
  | _ => false

/-- The wording of a protocol error. -/
def message : ProtocolError → String
  | short needed remaining =>
    "unexpected end of input: need " ++ needed.repr ++ " bytes, " ++ remaining.repr ++ " remaining"
  | unknownHash hash => "unknown packet hash " ++ hash.toHex
  | badEnum name ordinal members =>
    "invalid ordinal " ++ ordinal.toNat.repr ++ " for enum " ++ name ++ " (" ++ members.repr
      ++ " members)"
  | invalidLength length => "invalid sequence length: " ++ length.toInt.repr
  | lengthOverflow length => "sequence too long to encode: " ++ length.repr ++ " elements"
  | invalidText => "invalid UTF-8 in string field"
  | duplicateHash hash existing incoming =>
    "duplicate packet hash " ++ hash.toHex ++ ": " ++ existing
      ++ " already registered, cannot add " ++ incoming
  | nullPacket => "null packet where a packet is required"
  | packetTooLarge size max =>
    "packet too large: " ++ size.repr ++ " bytes buffered (max " ++ max.repr ++ ")"
  | io cause => "I/O error: " ++ cause.text

end ProtocolError
end PacketRpc
