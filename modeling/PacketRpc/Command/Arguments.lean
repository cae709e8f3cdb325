import PacketRpc.Command.Basic
import PacketRpc.Net.Address
import PacketRpc.Number.Nearest
import PacketRpc.Settings.Environment

/-!
# Arguments

Reads a command line from its arguments. Options that say which server to ask come before the
command; each may be given once, and some have a variable of the environment in their place. The
values of a calculation may be negative numbers, which other arguments that begin with a dash cannot
be. After two dashes nothing is an option.
-/

namespace PacketRpc

/-- Why arguments make no command line. -/
inductive Refusal
  /-- Only the version is asked for. -/
  | version
  /-- Only help is asked for. -/
  | help
  | misuse
  deriving DecidableEq, Repr

namespace Arguments

/-! ## Single arguments -/

/-- What an argument looks like. -/
inductive Form
  /-- Two dashes. -/
  | terminator
  /-- A long option, perhaps with a value after an equals sign. -/
  | long (name : String) (value : Option String)
  /-- Letters after a single dash, at least one. -/
  | short (first : Char) (rest : List Char)
  | plain (text : String)
  deriving DecidableEq, Repr

/-- The form of an argument. -/
def form (arg : String) : Form :=
  match arg.toList with
  | ['-', '-'] => .terminator
  | '-' :: '-' :: cs =>
    let name := String.ofList (cs.takeWhile (· ≠ '='))
    match cs.dropWhile (· ≠ '=') with
    | [] => .long name none
    | _ :: value => .long name (some (String.ofList value))
  | '-' :: c :: cs => .short c cs
  | _ => .plain arg

/-- The sign of an exponent, in either case. -/
def isExponentSign (c : Char) : Bool := c == 'e' || c == 'E'

/-- True of digits with at most one point, not at the front, and after it at most one sign of an
exponent, neither at the front nor at the end. -/
def isUnsignedNumber (cs : List Char) : Bool :=
  let mantissa := cs.takeWhile (!isExponentSign ·)
  let isDigits (cs : List Char) : Bool := cs.all Char.isDigit
  let isMantissa : Bool :=
    isDigits (mantissa.takeWhile (· ≠ '.')) && isDigits ((mantissa.dropWhile (· ≠ '.')).drop 1)
      && mantissa.head? != some '.'
  match cs.dropWhile (!isExponentSign ·) with
  | [] => isMantissa
  | _ :: exponent => isMantissa && !mantissa.isEmpty && isDigits exponent && !exponent.isEmpty

/-- A number below `bound` that may have a sign. -/
def signedBelow? (bound : Nat) (text : String) : Option Nat :=
  match Number.signed? text.toList with
  | some (.ofNat n) => if n < bound then some n else none
  | _ => none

/-- The kind of mean with a name. -/
def kind? : String → Option MeanKind
  | "arithmetic" => some .arithmetic
  | "geometric" => some .geometric
  | "harmonic" => some .harmonic
  | _ => none

/-- What a value given wrongly or not at all comes to. -/
def required {α : Type} (value : Option α) : Except Refusal α :=
  match value with
  | some a => .ok a
  | none => .error .misuse

/-- A value of a calculation. -/
def value (arg : String) : Except Refusal Binary32 := required (Binary32.ofText? arg)

/-- Why an option that belongs nowhere is refused: it asks for help, or it is a mistake. -/
def stray : Form → Refusal
  | .long "help" none | .short 'h' _ => .help
  | _ => .misuse

/-! ## Commands -/

/-- Reads values to the end. -/
def values : List String → Except Refusal (List Binary32)
  | [] => .ok []
  | arg :: rest =>
    match form arg with
    | .terminator => rest.mapM value
    | .plain _ => do
      let v ← value arg
      return v :: (← values rest)
    | .short c cs =>
      if isUnsignedNumber (c :: cs) then do
        let v ← value arg
        return v :: (← values rest)
      else .error (stray (.short c cs))
    | f => .error (stray f)

/-- Reads a kind of mean and values. -/
def kindAndValues : List String → Except Refusal (MeanKind × List Binary32)
  | [] => .error .misuse
  | arg :: rest =>
    match form arg with
    | .terminator =>
      match rest with
      | [] => .error .misuse
      | arg :: rest => do return (← required (kind? arg), ← rest.mapM value)
    | .plain _ => do
      let kind ← required (kind? arg)
      return (kind, ← values rest)
    | f => .error (stray f)

/-- Reads the one text of a command; `found` holds it once it has been seen. -/
def oneText (found : Option String) : List String → Except Refusal String
  | [] => required found
  | arg :: rest =>
    match form arg with
    | .terminator =>
      match found, rest with
      | none, [text] | some text, [] => .ok text
      | _, _ => .error .misuse
    | .plain text => if found.isSome then .error .misuse else oneText (some text) rest
    | f => .error (stray f)

/-- Help for the command that the names lead to. -/
def helpFor (known : List (List String)) (path : List String) : Refusal :=
  if path ∈ known then .help else .misuse

/-- The names of all commands of the calculator. -/
def calculations : List (List String) := [[], ["sum"], ["mean"], ["help"]]

/-- Reads what to encode; here there may be no values. -/
def encoding : List String → Except Refusal Calculation
  | "sum" :: rest => do return .sum (← values rest)
  | "mean" :: rest => do
    let (kind, vs) ← kindAndValues rest
    return .mean kind vs
  | "help" :: path => .error (helpFor calculations path)
  | arg :: _ => .error (stray (form arg))
  | [] => .error .misuse

/-- Values of which there has to be at least one. -/
def someValues (vs : List Binary32) : Except Refusal (List Binary32) :=
  if vs.isEmpty then .error .misuse else .ok vs

/-- Reads a command by its name. -/
def command (name : String) (args : List String) : Except Refusal Command :=
  match name with
  | "sum" => do return .calculate (.sum (← someValues (← values args)))
  | "mean" => do
    let (kind, vs) ← kindAndValues args
    return .calculate (.mean kind (← someValues vs))
  | "decode" => do return .decode (← oneText none args)
  | "encode" => do return .encode (← encoding args)
  | "help" =>
    .error (helpFor (calculations ++ [["decode"], ["encode"]]
      ++ (calculations.map ("encode" :: ·))) args)
  | _ => .error .misuse

/-! ## Options -/

/-- The options that have been given. -/
structure Given where
  host : Option String := none
  port : Option UInt16 := none
  timeoutMs : Option UInt64 := none

/-- Which option is meant. -/
inductive OptionName
  | host
  | port
  | timeoutMs
  deriving DecidableEq, Repr

/-- The option with a long name. -/
def longOption? : String → Option OptionName
  | "host" => some .host
  | "port" => some .port
  | "timeout-ms" => some .timeoutMs
  | _ => none

/-- The option with a letter. -/
def shortOption? : Char → Option OptionName
  | 'p' => some .port
  | 't' => some .timeoutMs
  | _ => none

/-- A port. -/
def port? (text : String) : Option UInt16 := (signedBelow? UInt16.size text).map UInt16.ofNat

/-- Gives an option its value, for the first and only time. -/
def Given.set (g : Given) (o : OptionName) (text : String) : Except Refusal Given :=
  match o with
  | .host => if g.host.isSome then .error .misuse else .ok { g with host := some text }
  | .port =>
    if g.port.isSome then .error .misuse
    else do return { g with port := some (← required (port? text)) }
  | .timeoutMs =>
    if g.timeoutMs.isSome then .error .misuse
    else do
      let n ← required (Digits.unsigned? UInt64.size text)
      return { g with timeoutMs := some (UInt64.ofNat n) }

/-- The value that stands in the same argument as a letter, perhaps after an equals sign. -/
def attached? : List Char → Option String
  | [] => none
  | '=' :: cs | cs => some (String.ofList cs)

/-- True of an argument that can be the value of the option before it. -/
def isValue (arg : String) : Bool := match form arg with
  | .plain _ => true
  | _ => false

/-- Reads options and the command after them. -/
def options (g : Given) : List String → Except Refusal (Given × Command)
  | [] => .error .misuse
  | arg :: rest =>
    let option? : Option (OptionName × Option String) := match form arg with
      | .long name value => (longOption? name).map (·, value)
      | .short c cs => (shortOption? c).map (·, attached? cs)
      | _ => none
    match option?, rest with
    | some (o, some value), rest => do options (← g.set o value) rest
    | some (o, none), value :: rest =>
      if isValue value then do options (← g.set o value) rest else .error .misuse
    | some (_, none), [] => .error .misuse
    | none, rest =>
      match form arg with
      | .plain name => do return (g, ← command name rest)
      | .long "version" none | .short 'V' _ => .error .version
      | f => .error (stray f)

end Arguments

/-- The command line that arguments and environment make. -/
def CommandLine.ofArguments (env : Environment) (args : List String) :
    Except Refusal CommandLine := do
  let (given, command) ← Arguments.options {} args
  let port ← match given.port, env "BLUEPACKET_PORT" with
    | some port, _ => pure port
    | none, some text => Arguments.required (Arguments.port? text)
    | none, none => pure defaultPort
  return {
    host := given.host.getD ((env "BLUEPACKET_HOST").getD "localhost")
    port := port
    timeoutMs := given.timeoutMs.getD 1000
    command := command }

end PacketRpc
