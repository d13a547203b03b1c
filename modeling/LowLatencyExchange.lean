import LowLatencyExchange.Types
import LowLatencyExchange.Library.OrderedMap
import LowLatencyExchange.Library.GreedyFill
import LowLatencyExchange.Library.Slices
import LowLatencyExchange.Library.UniqueKeys
import LowLatencyExchange.Library.Transducer
import LowLatencyExchange.Library.Fairness
import LowLatencyExchange.Library.Shards
import LowLatencyExchange.Library.StableOrder
import LowLatencyExchange.Library.LittleEndian
import LowLatencyExchange.Library.BoundedFifo
import LowLatencyExchange.Library.RingIndex
import LowLatencyExchange.Library.RecordStream
import LowLatencyExchange.Library.FoldHash
import LowLatencyExchange.Library.OrderStatistic
import LowLatencyExchange.Library.SwapRemove
import LowLatencyExchange.Library.SelfDelimiting
import LowLatencyExchange.OrderBook.Basic
import LowLatencyExchange.OrderBook.Priority
import LowLatencyExchange.OrderBook.Invariant
import LowLatencyExchange.OrderBook.Matching
import LowLatencyExchange.OrderBook.Refinement
import LowLatencyExchange.OrderBook.Removal
import LowLatencyExchange.OrderBook.Simulation
import LowLatencyExchange.OrderBook.Queries
import LowLatencyExchange.OrderBook.Representation
import LowLatencyExchange.OrderBook.PriorityLaws
import LowLatencyExchange.OrderBook.Aggregate
import LowLatencyExchange.OrderBook.Shadow
import LowLatencyExchange.OrderBook.Conservation
import LowLatencyExchange.OrderBook.Depth
import LowLatencyExchange.OrderBook.Arrival
import LowLatencyExchange.OrderBook.Effects
import LowLatencyExchange.OrderBook.Reflection
import LowLatencyExchange.OrderBook.Relabelling
import LowLatencyExchange.OrderBook.Withdrawal
import LowLatencyExchange.OrderBook.Sweep
import LowLatencyExchange.OrderBook.Replacement
import LowLatencyExchange.OrderBook.Slicing
import LowLatencyExchange.OrderBook.SelfCheck
import LowLatencyExchange.OrderBook.Digest
import LowLatencyExchange.Reference.Basic
import LowLatencyExchange.Reference.Mirror
import LowLatencyExchange.Reference.Matching
import LowLatencyExchange.Reference.Differential
import LowLatencyExchange.SpscQueue.Basic
import LowLatencyExchange.SpscQueue.Invariant
import LowLatencyExchange.SpscQueue.Refinement
import LowLatencyExchange.SpscQueue.Observers
import LowLatencyExchange.Protocol.Basic
import LowLatencyExchange.Protocol.Commands
import LowLatencyExchange.Protocol.Events
import LowLatencyExchange.Protocol.Canonical
import LowLatencyExchange.Protocol.EventCanonical
import LowLatencyExchange.Protocol.Framing
import LowLatencyExchange.Gateway.Messages
import LowLatencyExchange.Gateway.Session
import LowLatencyExchange.Gateway.Writing
import LowLatencyExchange.Gateway.Reading
import LowLatencyExchange.Gateway.Sending
import LowLatencyExchange.MarketData.Basic
import LowLatencyExchange.MarketData.Delivery
import LowLatencyExchange.EventLog.Basic
import LowLatencyExchange.EventLog.Format
import LowLatencyExchange.EventLog.Integrity
import LowLatencyExchange.EventLog.Truncation
import LowLatencyExchange.Engine.Basic
import LowLatencyExchange.Engine.Recording
import LowLatencyExchange.Engine.Run
import LowLatencyExchange.Engine.Responses
import LowLatencyExchange.Engine.Frames
import LowLatencyExchange.Engine.Sessions
import LowLatencyExchange.Engine.Groups
import LowLatencyExchange.Engine.Accounting
import LowLatencyExchange.Engine.Feeds
import LowLatencyExchange.Exchange.Basic
import LowLatencyExchange.Exchange.Terminal
import LowLatencyExchange.Exchange.Invariant
import LowLatencyExchange.Exchange.Delivery
import LowLatencyExchange.Exchange.RunGateway
import LowLatencyExchange.Exchange.Shutdown
import LowLatencyExchange.Exchange.Process
import LowLatencyExchange.Exchange.Completion
import LowLatencyExchange.Exchange.Quiescence
import LowLatencyExchange.Exchange.Holdings
import LowLatencyExchange.Exchange.Clients
import LowLatencyExchange.Observability.Histogram
import LowLatencyExchange.Benchmark.Workload
import LowLatencyExchange.Benchmark.Core
import LowLatencyExchange.Benchmark.Outcome
import LowLatencyExchange.Benchmark.Client
import LowLatencyExchange.Benchmark.Lockstep
import LowLatencyExchange.Benchmark.Finish
