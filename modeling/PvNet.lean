import PvNet.BitSet
import PvNet.Cli.CommandLine
import PvNet.Cli.Diagnostics
import PvNet.Cli.DurationArgument
import PvNet.Cli.Failure
import PvNet.Cli.Plan
import PvNet.Cli.Rehearsal
import PvNet.Cli.Report
import PvNet.Config
import PvNet.Connection.Composer
import PvNet.Connection.Dialing
import PvNet.Connection.Listener
import PvNet.Connection.Pool
import PvNet.Connection.Registry
import PvNet.Connection.Transport
import PvNet.Context.BeaconHandler
import PvNet.Context.Client
import PvNet.Context.LocalHost
import PvNet.Context.Server
import PvNet.Discovery.Beacon
import PvNet.Discovery.BeaconEmitter
import PvNet.Discovery.BeaconTracker
import PvNet.Discovery.Client
import PvNet.Discovery.Forwarder
import PvNet.Discovery.Guid
import PvNet.Discovery.Relay
import PvNet.Discovery.Responder
import PvNet.Discovery.Search
import PvNet.Discovery.SearchManager
import PvNet.Discovery.SearchService
import PvNet.Error
import PvNet.LockTable
import PvNet.Main
import PvNet.Message.Basic
import PvNet.Message.Command
import PvNet.Message.Header
import PvNet.Message.Stream
import PvNet.Net.Address
import PvNet.Net.AddressText
import PvNet.Net.Broadcast
import PvNet.Net.Datagram
import PvNet.Net.Interface
import PvNet.Net.IoError
import PvNet.Net.MulticastSocket
import PvNet.Net.Poller
import PvNet.Net.SocketError
import PvNet.Net.Stream
import PvNet.Notation.Basic
import PvNet.Notation.Protocol
import PvNet.Notation.Schema
import PvNet.Number.Binary64
import PvNet.Number.Duration
import PvNet.Number.Total
import PvNet.PeriodicTask
import PvNet.Proofs.Wire.Emission
import PvNet.Proofs.Wire.Reading
import PvNet.Schema.Field
import PvNet.Schema.Numbering
import PvNet.Status
import PvNet.Table
import PvNet.Text.Blank
import PvNet.Text.Decimal
import PvNet.Text.Document
import PvNet.Text.Grid
import PvNet.Text.Hex
import PvNet.Text.Width
import PvNet.Validation
import PvNet.Value.Basic
import PvNet.Value.Decode
import PvNet.Value.Described
import PvNet.Value.Encode
import PvNet.Value.Partial
import PvNet.Wire.Buffer
import PvNet.Wire.Bytes
import PvNet.Wire.Decode
import PvNet.Wire.Encode
import PvNet.Wire.Error
import PvNet.Proofs.Value.RoundTrip
import PvNet.Proofs.Schema.Levels
import PvNet.Proofs.Schema.References
import PvNet.Proofs.Schema.SentNumbers
import PvNet.Proofs.Schema.Agreement
import PvNet.Proofs.Value.DescribedStream
import PvNet.Proofs.Value.Leaves
import PvNet.Proofs.Value.PartialUpdate
import PvNet.Proofs.Value.PartialMismatch
import PvNet.Proofs.Message.Encoding
import PvNet.Proofs.Message.Framing
import PvNet.Proofs.Message.Sending
import PvNet.Proofs.Message.Datagrams
import PvNet.Proofs.Message.Delivery
import PvNet.Proofs.Wire.Failures
import PvNet.Proofs.Schema.Misplaced
import PvNet.Proofs.Malformed
import PvNet.Proofs.Schema.LostNumbers
import PvNet.Proofs.Value.FailedWrite
import PvNet.Proofs.Connection.Steps
import PvNet.Proofs.Connection.Verdicts
import PvNet.Proofs.Connection.Handshake
import PvNet.Proofs.Connection.Serving
import PvNet.Proofs.Connection.Convergence
import PvNet.Proofs.Connection.Meeting
import PvNet.Proofs.Connection.Reuse
import PvNet.Proofs.Message.Transmission
import PvNet.Proofs.Wire.Consumption
import PvNet.Proofs.Value.NodeCount
import PvNet.Proofs.Net.Addresses
import PvNet.Proofs.Discovery.SearchMessages
import PvNet.Proofs.Discovery.Exchange
import PvNet.Proofs.Discovery.Relaying
import PvNet.Proofs.Discovery.RelayedAnswers
import PvNet.Proofs.Discovery.Resolution
import PvNet.Proofs.Wire.Composition
import PvNet.Proofs.Formats
import PvNet.Proofs.Delimiting
import PvNet.Proofs.Schema.NestingLimit
import PvNet.Proofs.Schema.Unnumbered
import PvNet.Proofs.Discovery.SearchSizes
import PvNet.Proofs.Discovery.Beacons
import PvNet.Proofs.Payloads
import PvNet.Proofs.Value.Conformity
import PvNet.Proofs.Connection.Capacity
import PvNet.Proofs.Connection.Registration
import PvNet.Proofs.Connection.Holders
import PvNet.Proofs.Connection.Answers
import PvNet.Proofs.Connection.Sharing
import PvNet.Proofs.Connection.Exclusion
import PvNet.Proofs.History
import PvNet.Proofs.Discovery.Batches
import PvNet.Proofs.Discovery.Scheduling
import PvNet.Proofs.Discovery.Announcing
import PvNet.Proofs.Connection.Closings
import PvNet.Proofs.Context.Destruction
import PvNet.Proofs.Discovery.Packing
import PvNet.Proofs.Schema.Offsets
import PvNet.Proofs.Value.SelectedNodes
import PvNet.Proofs.Value.PartialReads
import PvNet.Proofs.Schema.Assignment
import PvNet.Proofs.Wire.BitSets
import PvNet.Proofs.Discovery.Readdressing
import PvNet.Proofs.Number.Numerals
import PvNet.Proofs.Configuration
import PvNet.Proofs.Net.NetworkParts
import PvNet.Proofs.Net.RuleLists
import PvNet.Proofs.Net.Broadcasts
import PvNet.Proofs.Number.Shortest
import PvNet.Proofs.Reloading
import PvNet.Proofs.Cli.BeaconEvents
import PvNet.Proofs.Discovery.Backoff
import PvNet.Proofs.Net.Sockets
import PvNet.Proofs.Discovery.AnswerSizes
import PvNet.Proofs.Discovery.Dispatching
import PvNet.Proofs.Connection.Changes
import PvNet.Proofs.Context.Tracking
import PvNet.Proofs.Connection.Grouping
import PvNet.Proofs.Connection.RegistryMap
import PvNet.Proofs.Net.Polling
import PvNet.Proofs.Wakeups
import PvNet.Proofs.Connection.Attempts
