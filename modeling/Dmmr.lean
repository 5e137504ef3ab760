import Dmmr.Lib.Words
import Dmmr.Lib.OrderedMap
import Dmmr.Lib.Progress
import Dmmr.Lib.Round
import Dmmr.Lib.LastWrite
import Dmmr.Lib.Segments
import Dmmr.Lib.FixedWindow
import Dmmr.Lib.Fifo
import Dmmr.Lib.LockTrace
import Dmmr.Lib.Inherit
import Dmmr.Lib.FirstMax
import Dmmr.Lib.FreeList
import Dmmr.Lib.Ownership
import Dmmr.Lib.Buffers
import Dmmr.Lib.Sha256
import Dmmr.Lib.Gossip
import Dmmr.Lib.Monitor
import Dmmr.Lib.Handles
import Dmmr.Store.Entry
import Dmmr.Store.Api
import Dmmr.Store.Record
import Dmmr.Store.Refinement
import Dmmr.Store.Readers
import Dmmr.Store.Merge
import Dmmr.Store.Stamps
import Dmmr.Wire.Frame
import Dmmr.Wire.Stream
import Dmmr.Wire.Client
import Dmmr.Node.Scan
import Dmmr.Node.ScanCycle
import Dmmr.Node.Threads
import Dmmr.Node.Gc
import Dmmr.Node.Collector
import Dmmr.Node.Collection
import Dmmr.Node.Ledger
import Dmmr.Node.Debts
import Dmmr.Node.Client
import Dmmr.Node.Pipeline
import Dmmr.Node.PlainMap
import Dmmr.Node.Answers
import Dmmr.Node.Gets
import Dmmr.Pool.Heap
import Dmmr.Pool.Payload
import Dmmr.Node.Control
import Dmmr.Node.Broadcasts
import Dmmr.Node.Jobs
import Dmmr.Node.Workers
import Dmmr.Node.Shutdown
import Dmmr.Cluster.Replication
import Dmmr.Cluster.Provenance
import Dmmr.Cluster.Auth
import Dmmr.Cluster.Peers
import Dmmr.Cluster.Connection
import Dmmr.Cluster.Knowledge
import Dmmr.Cluster.Sender
import Dmmr.Cluster.Sockets
import Dmmr.Cluster.Agreement
import Dmmr.Cluster.Configure
import Dmmr.Cluster.Hello
import Dmmr.Cluster.Protection
import Dmmr.Cluster.Gate
import Dmmr.Cluster.Handshake
import Dmmr.Cluster.Reauth
import Dmmr.Cluster.Outbox
import Dmmr.Cluster.Snapshot
import Dmmr.Cluster.Transfer
import Dmmr.Cluster.Join
import Dmmr.Cluster.Table
import Dmmr.Cluster.PeerList
import Dmmr.Cluster.Locks
import Dmmr.Cluster.PeerCodec
import Dmmr.Cluster.Reaper
import Dmmr.Cluster.Spread
import Dmmr.Cluster.Reconnect
import Dmmr.Cluster.Backoff
import Dmmr.Cluster.Recovery
import Dmmr.Cluster.Startup
import Dmmr.Cluster.Seeds
import Dmmr.Cluster.Discovery
import Dmmr.Cluster.Mesh
import Dmmr.Cluster.Listeners
import Dmmr.Cluster.Sha256
import Dmmr.Cluster.Hmac
import Dmmr.Gateway.Conf
import Dmmr.Gateway.Directives
import Dmmr.Gateway.RateLimit
import Dmmr.Gateway.RateZone
import Dmmr.Gateway.RateBound
import Dmmr.Gateway.RateIsolation
import Dmmr.Gateway.RatePlain
import Dmmr.Gateway.RateClock
import Dmmr.Gateway.Router
import Dmmr.Gateway.Auth
import Dmmr.Gateway.CacheConn
import Dmmr.Gateway.Credential
import Dmmr.Gateway.Parameters
import Dmmr.Gateway.Exchange
import Dmmr.Gateway.Access
import Dmmr.Gateway.Handler
import Dmmr.Gateway.Traffic
import Dmmr.Gateway.Selection
import Dmmr.Gateway.Tables
import Dmmr.Cluster.Delivery
