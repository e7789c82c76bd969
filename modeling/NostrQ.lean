import NostrQ.Foundation.Numeric
import NostrQ.Foundation.Transition
import NostrQ.Foundation.Fallible
import NostrQ.Foundation.Amortised
import NostrQ.Foundation.Simulation
import NostrQ.Foundation.Quorum
import NostrQ.Foundation.Backlog
import NostrQ.Foundation.Schedule
import NostrQ.Foundation.Broadcast
import NostrQ.Foundation.Budget
import NostrQ.Foundation.Lagging
import NostrQ.Foundation.Pipe
import NostrQ.Foundation.Forwarder
import NostrQ.Foundation.Exposition
import NostrQ.Foundation.Http
import NostrQ.Foundation.Registry
import NostrQ.Foundation.Saturation
import NostrQ.Foundation.LeaseElection
import NostrQ.Foundation.FirstWins
import NostrQ.Core.Event
import NostrQ.Core.Queue
import NostrQ.Core.Backoff
import NostrQ.Core.Protocol
import NostrQ.Core.Codec
import NostrQ.Database.Schema
import NostrQ.Database.Store
import NostrQ.Database.Decoding
import NostrQ.Database.DeadLetters
import NostrQ.Database.Faults
import NostrQ.Database.Lifecycle
import NostrQ.Database.Generations
import NostrQ.Database.Queues
import NostrQ.Database.Scheduling
import NostrQ.Sdk.TryClaim
import NostrQ.Sdk.Settle
import NostrQ.Sdk.Publish
import NostrQ.Sdk.Ingest
import NostrQ.Sdk.Idempotence
import NostrQ.Sdk.Session
import NostrQ.Sdk.Journal
import NostrQ.Sdk.Failure
import NostrQ.Sdk.Generations
import NostrQ.Sdk.Backoff
import NostrQ.Sdk.DeadLetters
import NostrQ.Sdk.Scheduling
import NostrQ.Sdk.Call
import NostrQ.Sdk.Replies
import NostrQ.Sdk.Subscription
import NostrQ.Sdk.MockSubscription
import NostrQ.Worker.Job
import NostrQ.Worker.Ranking
import NostrQ.Worker.Clock
import NostrQ.Worker.RunWorker
import NostrQ.Worker.Polling
import NostrQ.Worker.Terminal
import NostrQ.Worker.Process
import NostrQ.Worker.Exclusion
import NostrQ.Worker.OwnRow
import NostrQ.Worker.Drain
import NostrQ.Worker.Visibility
import NostrQ.Worker.Solo
import NostrQ.Worker.Responder
import NostrQ.Worker.Rpc
import NostrQ.Worker.Exec
import NostrQ.Worker.Budget
import NostrQ.Lease.World
import NostrQ.Lease.Ledger
import NostrQ.Lease.Release
import NostrQ.Lease.LockOut
import NostrQ.Lease.Scheduling
import NostrQ.Cluster.Board
import NostrQ.Cluster.Net
import NostrQ.Cluster.Grounding
import NostrQ.Cluster.Holding
import NostrQ.Cluster.Work
import NostrQ.Cluster.Quiescence
import NostrQ.Cluster.Takeover
import NostrQ.Cluster.SettleWindow
import NostrQ.Cluster.Survey
import NostrQ.Cluster.Timestamps
import NostrQ.Cluster.Ingesting
import NostrQ.Cluster.LoneClaim
import NostrQ.Cluster.Winner
import NostrQ.Cluster.MutualExclusion
import NostrQ.Cluster.Pool
import NostrQ.Cluster.Fleet
import NostrQ.Cluster.FleetNet
import NostrQ.Cluster.FleetExclusion
import NostrQ.Cluster.Finality
import NostrQ.Cluster.RetryBudget
import NostrQ.Cluster.DlqRetry
import NostrQ.Transport.Mock
import NostrQ.Transport.NostrTransport
import NostrQ.Transport.Feed
import NostrQ.Transport.DevRelay
import NostrQ.Transport.Delivery
import NostrQ.Cli.Worker
import NostrQ.Cli.Duration
import NostrQ.Cli.Ingress
import NostrQ.Cli.Metrics
import NostrQ.Cli.MetricsServer
import NostrQ.Cli.Scrape
import NostrQ.Cli.KeyFile
import NostrQ.Cli.Trace
import NostrQ.Worker.Transcript
