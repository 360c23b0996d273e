import Superstep.Bytes.Cursor
import Superstep.Bytes.Decoder
import Superstep.Bytes.Sink
import Superstep.Bytes.Source
import Superstep.Bytes.Word
import Superstep.Clock
import Superstep.Codec.Basic
import Superstep.Codec.Binary
import Superstep.Codec.Blob
import Superstep.Codec.Copier
import Superstep.Codec.Scalar
import Superstep.Config
import Superstep.Delivery.Answering
import Superstep.Delivery.Coordinator
import Superstep.Delivery.Medium
import Superstep.Delivery.Scripted
import Superstep.Delivery.Sender
import Superstep.Delivery.Task
import Superstep.Edges.Basic
import Superstep.Edges.Calls
import Superstep.Edges.Lazy
import Superstep.Edges.Section
import Superstep.Edges.Sorted
import Superstep.Edges.Strategy
import Superstep.Error
import Superstep.Ids
import Superstep.Ledger.Basic
import Superstep.Ledger.SeenIds
import Superstep.Message.Batch
import Superstep.Message.Calls
import Superstep.Message.Frame
import Superstep.Message.Request
import Superstep.Message.Store
import Superstep.Metrics
import Superstep.Network.Basic
import Superstep.Network.Cluster
import Superstep.Network.Link
import Superstep.Network.Traffic
import Superstep.Network.World
import Superstep.Partition.Basic
import Superstep.Partition.History
import Superstep.Partition.Kind
import Superstep.Partition.Layout
import Superstep.Partition.Records
import Superstep.Partition.Walk
import Superstep.Partition.Workspace
import Superstep.Partition.Writing
import Superstep.Proofs.Acceptance
import Superstep.Proofs.Attempts
import Superstep.Proofs.Batches
import Superstep.Proofs.Boundaries
import Superstep.Proofs.Canonical
import Superstep.Proofs.Codecs
import Superstep.Proofs.Compaction
import Superstep.Proofs.Connections
import Superstep.Proofs.Coordinator
import Superstep.Proofs.Copies
import Superstep.Proofs.Cuts
import Superstep.Proofs.Debris
import Superstep.Proofs.Decoder
import Superstep.Proofs.Destinations
import Superstep.Proofs.Dispatch
import Superstep.Proofs.EdgeCalls
import Superstep.Proofs.Edges
import Superstep.Proofs.Equality
import Superstep.Proofs.ExactlyOnce
import Superstep.Proofs.FailedReads
import Superstep.Proofs.Frames
import Superstep.Proofs.Grammar
import Superstep.Proofs.Histories
import Superstep.Proofs.Hosts
import Superstep.Proofs.IdSets
import Superstep.Proofs.Inboxes
import Superstep.Proofs.Keys
import Superstep.Proofs.Layouts
import Superstep.Proofs.Links
import Superstep.Proofs.Mapping
import Superstep.Proofs.Materialization
import Superstep.Proofs.Moves
import Superstep.Proofs.Network
import Superstep.Proofs.OrderedForms
import Superstep.Proofs.Partitions
import Superstep.Proofs.Passes
import Superstep.Proofs.Reached
import Superstep.Proofs.Records
import Superstep.Proofs.Redispatch
import Superstep.Proofs.Reencoding
import Superstep.Proofs.Rejection
import Superstep.Proofs.Reordering
import Superstep.Proofs.Retries
import Superstep.Proofs.Reuse
import Superstep.Proofs.RoundTrip
import Superstep.Proofs.Scalars
import Superstep.Proofs.Sections
import Superstep.Proofs.SeenIds
import Superstep.Proofs.Selection
import Superstep.Proofs.Server
import Superstep.Proofs.ServerRuns
import Superstep.Proofs.Settings
import Superstep.Proofs.Settlement
import Superstep.Proofs.Snapshots
import Superstep.Proofs.Sorted
import Superstep.Proofs.Streams
import Superstep.Proofs.Table
import Superstep.Proofs.Traffic
import Superstep.Proofs.Transfers
import Superstep.Proofs.Utf8
import Superstep.Proofs.Verdicts
import Superstep.Proofs.Vertices
import Superstep.Proofs.Views
import Superstep.Proofs.Wakeups
import Superstep.Proofs.Walks
import Superstep.Proofs.WireFormat
import Superstep.Proofs.World
import Superstep.Proofs.Writers
import Superstep.Server
import Superstep.Table
import Superstep.Text.Hex
import Superstep.Text.Printable
import Superstep.Text.Quoted
import Superstep.Text.Utf8
import Superstep.Vertex
