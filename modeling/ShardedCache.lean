import ShardedCache.Cluster.Waiting
import ShardedCache.Locator
import ShardedCache.Node.Connection
import ShardedCache.Text.Number
import ShardedCache.Transcoder
import ShardedCache.Client.FanOut
import ShardedCache.Client.SortedGet
import ShardedCache.Config.Value
import ShardedCache.Metrics.Exposition
import ShardedCache.Toml.Document
import ShardedCache.Config.Source
import ShardedCache.CommandLine.Run
import ShardedCache.Main
import ShardedCache.Proofs.SortedGet.Distinct
import ShardedCache.Proofs.SortedGet.StableSort
import ShardedCache.Proofs.SortedGet.Current
import ShardedCache.Proofs.SortedGet.TrimReport
import ShardedCache.Proofs.SortedGet.Insertion
import ShardedCache.Proofs.SortedGet.Continuity
import ShardedCache.Proofs.SortedGet.Paging
import ShardedCache.Proofs.SortedGet.Arrival
import ShardedCache.Proofs.Engine.Life
import ShardedCache.Proofs.Engine.Outcome
import ShardedCache.Proofs.Engine.Writing
import ShardedCache.Proofs.Engine.Making
import ShardedCache.Proofs.Engine.Sound
import ShardedCache.Proofs.Node.Steps
import ShardedCache.Proofs.Node.Custody
import ShardedCache.Proofs.Node.Handing
import ShardedCache.Proofs.Node.Server
import ShardedCache.Proofs.Node.Exchange
import ShardedCache.Proofs.Node.Transit
import ShardedCache.Proofs.Node.Sending
import ShardedCache.Proofs.Node.Delivery
import ShardedCache.Proofs.Node.Batching
import ShardedCache.Proofs.Engine.Telling
import ShardedCache.Proofs.Engine.Evolving
import ShardedCache.Proofs.Engine.Acts
import ShardedCache.Proofs.Engine.Reporting
import ShardedCache.Proofs.Future.Finality
import ShardedCache.Proofs.Engine.Reach
import ShardedCache.Proofs.Wire.Reread
import ShardedCache.Proofs.Node.Alignment
import ShardedCache.Proofs.Node.Filling
import ShardedCache.Proofs.Node.Upkeep
import ShardedCache.Proofs.Node.Traffic
import ShardedCache.Proofs.Node.Stream
import ShardedCache.Proofs.Node.Once
import ShardedCache.Proofs.Wire.Pieces
import ShardedCache.Proofs.Engine.Hearing
import ShardedCache.Proofs.Node.Attribution
import ShardedCache.Proofs.Engine.Onward
import ShardedCache.Proofs.Node.InFull
import ShardedCache.Proofs.Node.Seen
import ShardedCache.Proofs.Node.Promise
import ShardedCache.Proofs.Wire.Replies
import ShardedCache.Proofs.Node.Settling
import ShardedCache.Proofs.Node.Dialogue
import ShardedCache.Proofs.Engine.Multiplexing
import ShardedCache.Proofs.Engine.Wiring
import ShardedCache.Proofs.Batch.Seating
import ShardedCache.Proofs.Batch.Joining
import ShardedCache.Proofs.Batch.Misplaced
import ShardedCache.Proofs.Batch.Settlement
import ShardedCache.Proofs.SortedGet.Reading
import ShardedCache.Proofs.SortedGet.Rounds
import ShardedCache.Proofs.SortedGet.SliceCodec
import ShardedCache.Proofs.SortedGet.QueryCodec
import ShardedCache.Proofs.Client.Asking
import ShardedCache.Proofs.Client.Agreement
import ShardedCache.Proofs.Future.Decoding
import ShardedCache.Proofs.Future.Rereading
import ShardedCache.Proofs.Engine.Lapsing
import ShardedCache.Proofs.Node.Copying
import ShardedCache.Proofs.Cluster.Refilling
import ShardedCache.Proofs.Client.Drafting
import ShardedCache.Proofs.Client.Withdrawing
import ShardedCache.Proofs.Cluster.Elsewhere
import ShardedCache.Proofs.Node.Gating
import ShardedCache.Proofs.Cluster.Login
import ShardedCache.Proofs.Node.Health
import ShardedCache.Proofs.Cluster.Facets
import ShardedCache.Proofs.Cluster.Charging
import ShardedCache.Proofs.Client.Reaching
import ShardedCache.Proofs.Text.Digits
import ShardedCache.Proofs.OrderKey.Spelling
import ShardedCache.Proofs.Engine.Encoding
import ShardedCache.Proofs.Node.Regrouping
import ShardedCache.Proofs.Client.Grouping
import ShardedCache.Proofs.Batch.Indexing
import ShardedCache.Proofs.Node.Refusal
import ShardedCache.Proofs.Future.Partial
