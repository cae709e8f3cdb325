import PacketRpc.Service.Dispatcher

/-!
# Demonstration services

Small handlers and error mappers, between them with every kind of outcome: responses of the type of
the request and of others, refusals, and handlers that break off with and without a text.
-/

namespace PacketRpc.Demonstration

/-- Sends a text back in capitals, of which only the letters of ASCII have any. Some texts make the
handler fail. -/
def echo : Handler := ⟨.echo, fun c =>
  if c.text = "fail" then .failure "bad input"
  else if c.text = "panic" then .panic (some "kaboom")
  else if c.text = "panic-text" then .panic (some "kaboom panic-text")
  else if c.text = "panic-number" then .panic none
  else .response (.echo ⟨c.text.map Char.toUpper⟩)⟩

/-- Answers every text with one and a half. -/
def constant : Handler := ⟨.echo, fun _ => .response (.rpcResult ⟨⟨0x3FC00000⟩⟩)⟩

/-- Answers with the sum of the whole numbers, which wraps around. -/
def count : Handler := ⟨.everything, fun c =>
  .response (.unhandled ⟨c.aInt.foldl (· + ·) 0⟩)⟩

/-- Answers every error with its wording. -/
def errorText : ErrorMapper := fun e => some (.echo ⟨e.message⟩)

/-- Answers every error with the name of its class. -/
def errorKind : ErrorMapper := fun e => some (.echo ⟨e.kind.name⟩)

/-- Answers only the errors that arise once a request has been read. -/
def handlerErrors : ErrorMapper := fun e =>
  if e.isHandlerError then some (.echo ⟨"handled"⟩) else none

/-- The packet types of the demonstration services. -/
def packetTypes : List PacketType := [.echo, .unhandled]

end PacketRpc.Demonstration
