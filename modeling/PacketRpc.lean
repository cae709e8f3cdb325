import PacketRpc.Bytes.BigEndian
import PacketRpc.Bytes.Digest
import PacketRpc.Bytes.Hex
import PacketRpc.Calculator.Arithmetic
import PacketRpc.Calculator.Client
import PacketRpc.Calculator.Daemon
import PacketRpc.Calculator.Error
import PacketRpc.Calculator.Service
import PacketRpc.Client.Error
import PacketRpc.Client.Exchange
import PacketRpc.Client.Options
import PacketRpc.Codec.Enumerated
import PacketRpc.Codec.Flags
import PacketRpc.Codec.Scalar
import PacketRpc.Codec.Sequence
import PacketRpc.Command.Arguments
import PacketRpc.Command.Basic
import PacketRpc.Command.Run
import PacketRpc.Duration
import PacketRpc.Envelope
import PacketRpc.Error
import PacketRpc.Main
import PacketRpc.Net.Address
import PacketRpc.Net.AddressText
import PacketRpc.Number.Binary
import PacketRpc.Number.Digits
import PacketRpc.Number.Nearest
import PacketRpc.Number.Shortest
import PacketRpc.Packet.Basic
import PacketRpc.Packet.Content
import PacketRpc.Packet.Equality
import PacketRpc.Packet.Fields
import PacketRpc.Packet.Hash
import PacketRpc.Packet.Read
import PacketRpc.Packet.Render
import PacketRpc.Packet.Write
import PacketRpc.Proofs.Wire.Outcome
import PacketRpc.Registry
import PacketRpc.Render
import PacketRpc.Schema.Basic
import PacketRpc.Schema.Catalogue
import PacketRpc.Schema.Version
import PacketRpc.Service.Connection
import PacketRpc.Service.Demonstration
import PacketRpc.Service.Dispatcher
import PacketRpc.Service.Error
import PacketRpc.Service.Options
import PacketRpc.Service.Pool
import PacketRpc.Service.Server
import PacketRpc.Settings.Basic
import PacketRpc.Settings.Environment
import PacketRpc.Settings.Error
import PacketRpc.Settings.File
import PacketRpc.Settings.Load
import PacketRpc.Stream.Decoder
import PacketRpc.Stream.Input
import PacketRpc.SystemError
import PacketRpc.Text.Blank
import PacketRpc.Text.Quoted
import PacketRpc.Wire.Reader
import PacketRpc.Wire.Step
import PacketRpc.Wire.Writer
import PacketRpc.Yaml.Cursor
import PacketRpc.Yaml.Document
import PacketRpc.Yaml.Library
import PacketRpc.Yaml.Node
import PacketRpc.Yaml.Property
import PacketRpc.Yaml.Scalar
import PacketRpc.Yaml.Token
import PacketRpc.Yaml.Written
import PacketRpc.Proofs.Codec.Ordinals
import PacketRpc.Proofs.Codec.RoundTrip
import PacketRpc.Proofs.Wire.Length
import PacketRpc.Proofs.Packet.Reading
import PacketRpc.Proofs.Codec.Overflow
import PacketRpc.Proofs.Packet.Writing
import PacketRpc.Proofs.Packet.RoundTrip
import PacketRpc.Proofs.Stream.Decoder
import PacketRpc.Proofs.Stream.Items
import PacketRpc.Proofs.Stream.Feed
import PacketRpc.Proofs.Stream.Buffer
import PacketRpc.Proofs.Exchange.Loops
import PacketRpc.Proofs.Exchange.Transparency
import PacketRpc.Proofs.Exchange.OneShot
import PacketRpc.Proofs.Schema.Shape
import PacketRpc.Proofs.Schema.Order
import PacketRpc.Proofs.Schema.Codec
import PacketRpc.Proofs.Packet.Description
import PacketRpc.Proofs.Schema.Size
import PacketRpc.Proofs.Packet.Size
import PacketRpc.Proofs.Wire.Separation
import PacketRpc.Proofs.Number.Equality
import PacketRpc.Proofs.Packet.Equality
import PacketRpc.Proofs.Wire.Respelling
import PacketRpc.Proofs.Codec.Respelling
import PacketRpc.Proofs.Schema.Respelling
import PacketRpc.Proofs.Packet.Normal
import PacketRpc.Proofs.Schema.Letters
import PacketRpc.Proofs.Schema.Version
import PacketRpc.Proofs.Pool.History
import PacketRpc.Proofs.Pool.Places
import PacketRpc.Service.SharedPool
import PacketRpc.Proofs.Pool.Accounting
import PacketRpc.Proofs.Server.History
import PacketRpc.Proofs.Server.Shutdown
import PacketRpc.Proofs.Wire.Errors
import PacketRpc.Proofs.Exchange.Limit
import PacketRpc.Proofs.Calculator.Replies
import PacketRpc.Proofs.Exchange.Guard
import PacketRpc.Registry.Table
import PacketRpc.Proofs.Registry.Table
import PacketRpc.Proofs.Registry.Mirror
import PacketRpc.Service.LiveServer
import PacketRpc.Proofs.Server.Serving
import PacketRpc.Proofs.Server.Events
import PacketRpc.Proofs.Server.Tracked
import PacketRpc.Proofs.Server.Counters
import PacketRpc.Proofs.Server.Answers
import PacketRpc.Proofs.Codec.Flags
import PacketRpc.Proofs.Codec.Enumeration
import PacketRpc.Proofs.Settings.Layers
import PacketRpc.Text.Order
import PacketRpc.Service.HandlerTable
import PacketRpc.Proofs.Dispatch.Calls
import PacketRpc.Proofs.Dispatch.Mirror
import PacketRpc.Proofs.Wire.Truncation
import PacketRpc.Proofs.Codec.Elements
import PacketRpc.Proofs.Packet.Elements
import PacketRpc.Proofs.Calculator.Transparency
import PacketRpc.Proofs.Schema.Display
import PacketRpc.Proofs.Packet.Display
import PacketRpc.Proofs.Net.AddressText
import PacketRpc.Proofs.Pool.Resizing
import PacketRpc.Proofs.Schema.Nesting
import PacketRpc.Proofs.Settings.Backlog
import PacketRpc.Proofs.Yaml.Lines
import PacketRpc.Proofs.Yaml.Library
import PacketRpc.Proofs.Settings.Saved
import PacketRpc.Proofs.Bytes.Hex
import PacketRpc.Proofs.Packet.Hash
import PacketRpc.Proofs.Command.Decoding
import PacketRpc.Proofs.Wire.Appending
import PacketRpc.Proofs.Packet.Appending
import PacketRpc.Proofs.Wire.Course
import PacketRpc.Proofs.Packet.Descent
import PacketRpc.Proofs.Wire.Grammar
