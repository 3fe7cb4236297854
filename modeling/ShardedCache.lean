import ShardedCache.Main
import ShardedCache.Pool.Custody
import ShardedCache.Proofs.Frame.Assembly
import ShardedCache.Proofs.Frame.Schedule
import ShardedCache.Proofs.Frame.Accounting
import ShardedCache.Proofs.Stream.Cutting
import ShardedCache.Proofs.Stream.RoundTrip
import ShardedCache.Proofs.Session.Account
import ShardedCache.Proofs.Service.Answering
import ShardedCache.Proofs.Service.Responses
import ShardedCache.Proofs.Session.Conversation
import ShardedCache.Proofs.Service.History
import ShardedCache.Proofs.Session.Transcript
import ShardedCache.Proofs.Session.Outflow
import ShardedCache.Proofs.Session.Standing
import ShardedCache.Proofs.Session.Failing
import ShardedCache.Proofs.Session.Holding
import ShardedCache.Proofs.Pool.Queues
import ShardedCache.Proofs.Pool.Conservation
import ShardedCache.Proofs.Pool.Ownership
import ShardedCache.Proofs.Pool.Traffic
import ShardedCache.Proofs.Pool.Closing
import ShardedCache.Proofs.Pool.Lending
import ShardedCache.Proofs.Pool.Sweeping
import ShardedCache.Proofs.Relay.Linkage
import ShardedCache.Proofs.Relay.Lockstep
import ShardedCache.Proofs.Relay.Backends
import ShardedCache.Proofs.Relay.Sharding
import ShardedCache.Proofs.Relay.Quiet
import ShardedCache.Proofs.Relay.Shared
import ShardedCache.Proofs.Relay.Upkeep
import ShardedCache.Proofs.Relay.Outcomes
import ShardedCache.Proofs.Packet.Layout
import ShardedCache.Proofs.Packet.Building
import ShardedCache.Proofs.Store.Lookups
import ShardedCache.Proofs.Store.Contention
import ShardedCache.Proofs.Store.Forms
import ShardedCache.Proofs.Relay.Cluster
import ShardedCache.Proofs.Relay.ReadBack
import ShardedCache.Proofs.Server.Reception
import ShardedCache.Proofs.Json.Grammar
import ShardedCache.Proofs.Json.Reading
import ShardedCache.Proofs.Json.Writing
import ShardedCache.Proofs.Relay.Refusing
import ShardedCache.Proofs.Service.Effects
import ShardedCache.Proofs.Service.Reading
import ShardedCache.Proofs.Settings.Decisions
import ShardedCache.Proofs.Settings.Layouts
import ShardedCache.Proofs.Command.Precedence
import ShardedCache.Proofs.Octets.Text
import ShardedCache.Proofs.Command.Visits
