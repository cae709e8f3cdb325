import PacketRpc.Calculator.Service
import PacketRpc.Service.Server
import PacketRpc.Settings.Load
import PacketRpc.Text.Quoted

/-!
# The calculator as a program

The program loads its settings, starts a server for the calculator and runs until it is interrupted.
It logs what it does. Settings that cannot be loaded and an address that cannot be bound end it at
once.
-/

namespace PacketRpc.Calculator

/-- How much a line of the log matters. -/
inductive Level
  | info
  | error
  deriving DecidableEq, Repr

/-- A line of the log. -/
structure LogLine where
  level : Level
  text : String
  deriving DecidableEq, Repr

/-- A line with its level and the name of the program. -/
def LogLine.shown (l : LogLine) : String :=
  (match l.level with
    | .info => "INFO"
    | .error => "ERROR") ++ " bluepacket: " ++ l.text

/-- What is told of a cause when it ends the program. -/
def causeReport : IoCause → String
  | .system e => "Os \x7b code: " ++ e.code.repr ++ ", kind: " ++ e.kind ++ ", message: "
      ++ Text.quoted e.description ++ " \x7d"
  | .described text => "Custom \x7b kind: Other, error: " ++ Text.quoted text ++ " \x7d"

/-- What is told of unusable settings when they end the program. -/
def settingsReport : ConfigError → String
  | .unreadable path cause => "IoError(" ++ Text.quoted path ++ ", " ++ causeReport cause ++ ")"
  | .unparsable path cause => "ParseError(" ++ Text.quoted path ++ ", " ++ Text.quoted cause ++ ")"
  | .invalid reason => "ValidationError(" ++ Text.quoted reason ++ ")"

/-- What a start leaves behind: the log, and a server or the report of why there is none. -/
structure Started where
  log : List LogLine
  result : Except String Server

/-- The lines that tell of the settings. -/
def startLog (path : Option String) (s : Settings) : List LogLine :=
  (match path with
    | some path => [⟨.info, "Loaded config from " ++ path⟩]
    | none => []) ++
  [⟨.info, "Starting bluepacket server"⟩,
    ⟨.info, "  Bind address: " ++ s.network.bindAddress.text⟩,
    ⟨.info, "  Workers: " ++ s.pool.workers.toNat.repr ++ " (queue capacity "
      ++ s.pool.queueCapacity.toNat.repr ++ ")"⟩,
    ⟨.info, "  Registered packets: " ++ registry.size.repr⟩]

/-- A calculator that has not been bound yet. Its handlers do the same each time. -/
def server (o : ServerOptions) : Server := .new o registry fun _ => dispatcher

/-- Starts the program; `bind` tells whether an address can be bound. -/
def start (lib : Yaml.Library) (env : Environment) (files : Files)
    (bind : SocketAddress → Except IoCause Unit) : Started :=
  match Settings.load lib env files with
  | .error e => ⟨[⟨.error, "Failed to load config: " ++ e.message⟩], .error (settingsReport e)⟩
  | .ok s =>
    let log := startLog (env Settings.fileVariable) s
    match bind s.network.bindAddress with
    | .error cause => ⟨log, .error ("Io(" ++ causeReport cause ++ ")")⟩
    | .ok _ => ⟨log, .ok ((server s.serverOptions).bind.beginServing)⟩

/-- What the program logs and how it ends when it is interrupted. -/
def interrupt (s : Server) : List LogLine × Server :=
  let s := s.shutdown
  let s := (s.join?.map Prod.snd).getD s
  let t := s.statistics
  ([⟨.info, "Received shutdown signal, stopping server..."⟩,
    ⟨.info, "Server stopped (" ++ t.connections.repr ++ " connections, " ++ t.dropped.repr
      ++ " dropped, " ++ t.errors.repr ++ " errors)"⟩], s)

/-- What the program prints when something ends it. -/
def failureText (report : String) : String := "Error: " ++ report ++ "\n"

end PacketRpc.Calculator
