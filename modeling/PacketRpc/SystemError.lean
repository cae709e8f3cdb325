/-!
# Failures of the system

Files and sockets can fail for causes that the operating system numbers, and for others that are
only described.
-/

namespace PacketRpc

/-- A failure that the operating system reports. -/
structure SystemError where
  code : Nat
  /-- The class of the failure. -/
  kind : String
  description : String
  deriving DecidableEq, Repr

namespace SystemError

def notFound : SystemError := ⟨2, "NotFound", "No such file or directory"⟩
def notADirectory : SystemError := ⟨20, "NotADirectory", "Not a directory"⟩
def isADirectory : SystemError := ⟨21, "IsADirectory", "Is a directory"⟩
def nameTooLong : SystemError := ⟨36, "InvalidFilename", "File name too long"⟩
def networkUnreachable : SystemError := ⟨101, "NetworkUnreachable", "Network is unreachable"⟩

end SystemError

/-- Why an operation on a file or a socket failed. -/
inductive IoCause
  | system (error : SystemError)
  | described (text : String)
  deriving DecidableEq, Repr

/-- The wording of a cause. -/
def IoCause.text : IoCause → String
  | system e => e.description ++ " (os error " ++ e.code.repr ++ ")"
  | described text => text

end PacketRpc
