import PacketRpc.Calculator.Client
import PacketRpc.Command.Arguments
import PacketRpc.Packet.Render
import PacketRpc.Text.Blank
import PacketRpc.Text.Quoted

/-!
# Running commands

A command prints one line: a value, a packet or hexadecimal text. What goes wrong is printed apart
and ends the program with another code.
-/

namespace PacketRpc

namespace Hex

/-- The wording of what is wrong with a hexadecimal text. -/
def Fault.message : Fault → String
  | .oddLength => "Odd number of digits"
  | .invalidCharacter c index =>
    "Invalid character " ++ Text.quotedChar c ++ " at position " ++ index.repr

end Hex

/-- What can go wrong with a command. -/
inductive CommandError
  | hex (fault : Hex.Fault)
  | protocol (error : ProtocolError)
  | calculation (error : CalcError)
  deriving DecidableEq, Repr

/-- The wording of what went wrong. -/
def CommandError.message : CommandError → String
  | hex fault => fault.message
  | protocol e => e.message
  | calculation e => e.message

/-! ## Colours -/

/-- Colours of text on a terminal. -/
inductive Colour
  | red
  | green
  | yellow
  deriving DecidableEq, Repr

namespace Colour

/-- The number of a colour. -/
def code : Colour → String
  | red => "31"
  | green => "32"
  | yellow => "33"

/-- A text in a colour, if colours are on. -/
def paint (isOn : Bool) (c : Colour) (text : String) : String :=
  if isOn then "\x1b[" ++ c.code ++ "m" ++ text ++ "\x1b[0m" else text

/-- True when the environment asks for colours even where the output is no terminal. -/
def isForced (env : Environment) : Bool :=
  match env "CLICOLOR_FORCE" with
  | some v => v != "0"
  | none => false

end Colour

/-! ## Commands -/

namespace Command

/-- The packet that a hexadecimal text stands for; white space around it does not count. -/
def decodeText (text : String) : Except CommandError (Option Packet) :=
  match Hex.decode (Text.trim text) with
  | .error fault => .error (.hex fault)
  | .ok bs =>
    match Envelope.deserialize Calculator.registry bs with
    | .error e => .error (.protocol e)
    | .ok p => .ok p

/-- The request for a calculation as hexadecimal text. -/
def encodeText (c : Calculation) : Except CommandError String :=
  match Envelope.serialize c.request with
  | .error e => .error (.protocol e)
  | .ok bs => .ok (Hex.encode bs)

/-- Asks a server for the value of a calculation. -/
def calculateText (l : CommandLine) (route : Route) (c : Calculation) :
    Except CommandError String :=
  let o : ClientOptions :=
    { host := l.host, port := l.port, readTimeout := .ofMilliseconds l.timeoutMs.toNat }
  match Calculator.ask o route c.request with
  | .error e => .error (.calculation e)
  | .ok v => .ok v.text

end Command

/-- What a packet is shown as; where there is none, that is said in a colour. -/
def shownOrNull (isColoured : Bool) : Option Packet → String
  | some p => p.display
  | none => Colour.yellow.paint isColoured "null packet"

/-- The line that a command prints. -/
def CommandLine.result (l : CommandLine) (isColoured : Bool) (route : Route) :
    Except CommandError String :=
  match l.command with
  | .decode text => (Command.decodeText text).map (shownOrNull isColoured)
  | .encode c => Command.encodeText c
  | .calculate c => (Command.calculateText l route c).map (Colour.green.paint isColoured)

/-- What a program leaves behind. -/
structure Output where
  exit : Nat
  out : String := ""
  err : String := ""
  deriving DecidableEq, Repr

/-- How the program is called. -/
def usage : String := "Usage: bluepacket-cli [OPTIONS] <COMMAND>\n"

/-- Runs the program. -/
def runCommandLine (env : Environment) (route : Route) (args : List String) : Output :=
  match CommandLine.ofArguments env args with
  | .error .version => { exit := 0, out := "bluepacket-cli 0.1.0\n" }
  | .error .help => { exit := 0, out := usage }
  | .error .misuse => { exit := 2, err := usage }
  | .ok l =>
    match l.result (Colour.isForced env) route with
    | .ok line => { exit := 0, out := line ++ "\n" }
    | .error e =>
      let label := Colour.red.paint (Colour.isForced env) "Error"
      { exit := 1, err := label ++ ": " ++ e.message ++ "\n" }

end PacketRpc
