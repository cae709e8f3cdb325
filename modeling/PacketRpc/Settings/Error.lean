import PacketRpc.SystemError

/-!
# Configuration errors

A configuration file can be unreadable or make no sense, and settings that make sense can still be
of no use.
-/

namespace PacketRpc

/-- What can go wrong with a configuration. -/
inductive ConfigError
  /-- The file cannot be read. -/
  | unreadable (path : String) (cause : IoCause)
  /-- The text of the file is no configuration. -/
  | unparsable (path cause : String)
  /-- The settings are of no use. -/
  | invalid (reason : String)
  deriving DecidableEq, Repr

/-- The wording of a configuration error. -/
def ConfigError.message : ConfigError → String
  | unreadable path cause => "failed to read config file '" ++ path ++ "': " ++ cause.text
  | unparsable path cause => "failed to parse config file '" ++ path ++ "': " ++ cause
  | invalid reason => "configuration validation failed: " ++ reason

end PacketRpc
