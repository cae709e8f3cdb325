import PacketRpc.Settings.Environment
import PacketRpc.Settings.File

/-!
# Loading settings

Settings are loaded in layers: the usual values, a file that the environment may name, and the
variables of the environment. Only what comes out of all layers is checked.
-/

namespace PacketRpc

/-- What can be read at a path: a text, or the cause why there is none. -/
abbrev Files := String → Except IoCause String

namespace Settings

variable (lib : Yaml.Library)

/-- The settings of a file. -/
def ofFile (files : Files) (path : String) : Except ConfigError Settings :=
  match files path with
  | .error cause => .error (.unreadable path cause)
  | .ok text =>
    match ofText? lib text with
    | some s => .ok s
    | none => .error (.unparsable path (lib.complaint text))

/-- The variable that names the settings file. -/
def fileVariable : String := "BLUEPACKET_CONFIG"

/-- The settings of the environment alone, without a file and unchecked. -/
def ofEnvironment (env : Environment) : Settings :=
  ({} : Settings).override (Overrides.ofEnvironment env)

/-- The settings of all layers, if a server can run with them. -/
def load (env : Environment) (files : Files) : Except ConfigError Settings := do
  let base ← match env fileVariable with
    | some path => ofFile lib files path
    | none => pure {}
  let s := base.override (Overrides.ofEnvironment env)
  s.validate
  return s

/-- Saves the settings to a path, where writing may fail for a cause. -/
def save (write : String → String → Except IoCause Unit) (path : String) (s : Settings) :
    Except ConfigError Unit :=
  match lib.emit s.content with
  | .error cause => .error (.unparsable path cause)
  | .ok text =>
    match write path text with
    | .ok _ => .ok ()
    | .error cause => .error (.unreadable path cause)

end Settings
end PacketRpc
