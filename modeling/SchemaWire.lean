import SchemaWire.Engine
import SchemaWire.Message.Stage
import SchemaWire.Types.Directory
import SchemaWire.Data.Serialize
import SchemaWire.Command.Outcome
import SchemaWire.Main
import SchemaWire.Proofs.Reading
import SchemaWire.Proofs.Varint
import SchemaWire.Proofs.Name.Packing
import SchemaWire.Proofs.Name.Scheme
import SchemaWire.Proofs.Schema.Blob
import SchemaWire.Proofs.Schema.Encodable
import SchemaWire.Proofs.Data.Closed
import SchemaWire.Proofs.Data.Write
import SchemaWire.Proofs.Message.Evolution
import SchemaWire.Proofs.Data.Names
import SchemaWire.Proofs.Message.Frame
import SchemaWire.Proofs.Message.Encode
import SchemaWire.Proofs.Message.Stream
import SchemaWire.Proofs.Data.Reading
import SchemaWire.Proofs.Types.Registry
import SchemaWire.Proofs.Message.Peers
import SchemaWire.Proofs.Name.Table
import SchemaWire.Proofs.Schema.Derive
import SchemaWire.Proofs.Types.Directory
import SchemaWire.Proofs.Types.History
import SchemaWire.Proofs.Message.TypeInfo
import SchemaWire.Proofs.Data.Pairing
import SchemaWire.Proofs.Types.Integer
import SchemaWire.Proofs.Value.Resolve
import SchemaWire.Proofs.Data.Plain
import SchemaWire.Proofs.Data.Asking
import SchemaWire.Proofs.Data.Enter
import SchemaWire.Proofs.Data.Fields
import SchemaWire.Proofs.Data.RoundTrip
import SchemaWire.Proofs.Message.RoundTrip
import SchemaWire.Proofs.Limit.Realm
import SchemaWire.Proofs.Value.Parts
import SchemaWire.Proofs.Limit.Circle
import SchemaWire.Proofs.Limit.Loops
import SchemaWire.Proofs.Limit.Plain
import SchemaWire.Proofs.Limit.World
import SchemaWire.Proofs.Limit.Data
import SchemaWire.Proofs.Limit.Places
import SchemaWire.Proofs.Message.Limit
import SchemaWire.Proofs.Data.Steps
import SchemaWire.Proofs.Data.Local
import SchemaWire.Proofs.Data.Discipline
import SchemaWire.Proofs.Data.Replay
import SchemaWire.Proofs.Data.Truncated
import SchemaWire.Proofs.Message.Truncation
import SchemaWire.Proofs.Data.Pass
import SchemaWire.Proofs.Data.Serialize
import SchemaWire.Proofs.Data.Ext
import SchemaWire.Proofs.Message.Session
import SchemaWire.Proofs.Data.Uses
import SchemaWire.Proofs.Message.Inspection
import SchemaWire.Proofs.Data.PassedOver
import SchemaWire.Proofs.Message.Struct
import SchemaWire.Proofs.Message.Extension
import SchemaWire.Proofs.Data.Bound
import SchemaWire.Proofs.Data.Appearance
import SchemaWire.Proofs.Data.BackReference
import SchemaWire.Proofs.Message.Records
import SchemaWire.Proofs.Data.Keys
import SchemaWire.Proofs.Message.LeftOut
import SchemaWire.Proofs.Data.Eventually
import SchemaWire.Proofs.Data.InTurn
import SchemaWire.Proofs.Data.Wrapped
import SchemaWire.Proofs.Message.Wrapped
import SchemaWire.Proofs.Data.Orderly
import SchemaWire.Proofs.Data.Begins
import SchemaWire.Proofs.Data.Frames
import SchemaWire.Proofs.Value.Nesting
import SchemaWire.Proofs.Data.Depth
import SchemaWire.Proofs.Data.TooDeep
import SchemaWire.Proofs.Message.Entrance
import SchemaWire.Proofs.Message.Depth
import SchemaWire.Proofs.Value.Options
import SchemaWire.Proofs.Message.NestedOption
import SchemaWire.Proofs.Message.Resolution
import SchemaWire.Proofs.Value.Whole
import SchemaWire.Proofs.Data.Meeting
import SchemaWire.Proofs.Data.Careful
import SchemaWire.Proofs.Data.Whole
import SchemaWire.Proofs.Varint.Received
import SchemaWire.Proofs.Varint.Formats
import SchemaWire.Proofs.Schema.Streamed
import SchemaWire.Proofs.Digest.Injective
import SchemaWire.Proofs.Digest.ByteWise
import SchemaWire.Proofs.Name.Hash
import SchemaWire.Proofs.Name.Received
import SchemaWire.Proofs.Schema.Received
import SchemaWire.Proofs.Schema.NameSize
import SchemaWire.Proofs.Message.Cursor
import SchemaWire.Proofs.Data.Shortest
import SchemaWire.Proofs.Data.Root
