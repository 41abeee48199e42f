import MiracleAuction.Base.Run
import MiracleAuction.Authority.Prices
import MiracleAuction.Authority.FairLeader
import MiracleAuction.Authority.Close
import MiracleAuction.Projection.Deadlines
import MiracleAuction.Projection.Projector
import MiracleAuction.Projection.Convergence
import MiracleAuction.Projection.BannedLeader
import MiracleAuction.Projection.Rebuild
import MiracleAuction.Projection.Delivery
import MiracleAuction.Projection.Prefix
import MiracleAuction.Recovery.Interrupted
import MiracleAuction.Recovery.Idempotency
import MiracleAuction.Postgres.Equivalence
import MiracleAuction.Postgres.Leader
import MiracleAuction.Projection.Readable
import MiracleAuction.Projection.Sequential
import MiracleAuction.Messaging.Relay
import MiracleAuction.Messaging.Deliveries
import MiracleAuction.Messaging.AuctionMails
import MiracleAuction.Messaging.Batches
import MiracleAuction.Messaging.Producers
import MiracleAuction.Accounts.RefreshSession
import MiracleAuction.Accounts.PasswordReset
import MiracleAuction.Accounts.AuthSnapshot
import MiracleAuction.Agents.Cancellation
import MiracleAuction.Dashboard.Revenue
import MiracleAuction.Dashboard.Snapshot
import MiracleAuction.Authority.SecondPrice
import MiracleAuction.Authority.Frames
import MiracleAuction.Authority.Reference
import MiracleAuction.Accounts.Ratings
import MiracleAuction.Visitors.SessionList
import MiracleAuction.Products.Catalog
import MiracleAuction.Categories.Subtree
import MiracleAuction.Authority.Shards
import MiracleAuction.Agents.EventStream
import MiracleAuction.Projection.KeyedLanes
import MiracleAuction.Frontend.SocketBidding
import MiracleAuction.Agents.Redaction
import MiracleAuction.Agents.WorkspacePatch
import MiracleAuction.Frontend.ApiClient
import MiracleAuction.Base.ConsumerGroup
import MiracleAuction.Projection.Compaction
import MiracleAuction.Base.FixedWindow
import MiracleAuction.Authority.RateLimit
import MiracleAuction.Postgres.Concurrent
import MiracleAuction.Postgres.Sales
import MiracleAuction.Projection.Retention
import MiracleAuction.Base.FileTree
import MiracleAuction.Agents.Workspaces
import MiracleAuction.Accounts.Registration
