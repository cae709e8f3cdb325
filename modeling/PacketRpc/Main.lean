import PacketRpc.Command.Run

/-!
# The program

Hands the arguments and the environment to the command line and prints what it leaves behind. No
server can be reached from here.
-/

namespace PacketRpc

/-- The variables that the command line looks at. -/
def variableNames : List String := ["BLUEPACKET_HOST", "BLUEPACKET_PORT", "CLICOLOR_FORCE"]

end PacketRpc

open PacketRpc

def main (args : List String) : IO UInt32 := do
  let found ← variableNames.mapM fun name => return (name, ← IO.getEnv name)
  let output := runCommandLine (fun name => (found.lookup name).join)
    (.broken (.system .networkUnreachable)) args
  IO.print output.out
  IO.eprint output.err
  return output.exit.toUInt32
