import RemoteCall.Address
import RemoteCall.Balancer.Action
import RemoteCall.Proofs.Balancer.Updates
import RemoteCall.Client
import RemoteCall.Cluster.Fastest
import RemoteCall.Cluster.Session
import RemoteCall.Codes
import RemoteCall.Config
import RemoteCall.Connection.Call
import RemoteCall.Context.Session
import RemoteCall.Data.KeyMap
import RemoteCall.Declaration
import RemoteCall.Gzip.Stored
import RemoteCall.Interceptor.Tracing
import RemoteCall.Message.Places
import RemoteCall.Message.Response
import RemoteCall.Message.Stream
import RemoteCall.Payload
import RemoteCall.Payload.Json
import RemoteCall.Payload.Value
import RemoteCall.Pool.Session
import RemoteCall.Registry.Feed
import RemoteCall.Registry.Followed
import RemoteCall.Registry.Instance
import RemoteCall.Registry.ListedSession
import RemoteCall.Registry.Shared
import RemoteCall.Reply
import RemoteCall.Resolver.Session
import RemoteCall.Server.Announcing
import RemoteCall.Server.Arriving
import RemoteCall.Server.Lifecycle
import RemoteCall.Server.Serving
import RemoteCall.Store.Session
import RemoteCall.Stub.Loopback
import RemoteCall.Stub.Remote
import RemoteCall.Text.Printable
import RemoteCall.Text.Quoted
import RemoteCall.Text.Uppercase
import RemoteCall.Text.Utf8
import RemoteCall.Users
import RemoteCall.Users.Service
import RemoteCall.Work
import RemoteCall.Work.Concurrent
import RemoteCall.Proofs.Pool.Callers
import RemoteCall.Proofs.Pool.Admission
import RemoteCall.Proofs.Pool.Ownership
import RemoteCall.Proofs.Pool.Line
import RemoteCall.Proofs.Pool.Steps
import RemoteCall.Proofs.Pool.Fairness
import RemoteCall.Proofs.Pool.Whereabouts
import RemoteCall.Proofs.Data.KeyMap
import RemoteCall.Proofs.Text.Order
import RemoteCall.Proofs.Message.Fields
import RemoteCall.Proofs.Message.Head
import RemoteCall.Proofs.Message.Places
import RemoteCall.Proofs.Message.Layout
import RemoteCall.Proofs.Message.Request
import RemoteCall.Proofs.Message.Canonical
import RemoteCall.Proofs.Message.Stream
import RemoteCall.Proofs.Message.Response
import RemoteCall.Proofs.Pool.Holders
import RemoteCall.Proofs.Connection.Serving
import RemoteCall.Proofs.Connection.Link
import RemoteCall.Proofs.Connection.Traffic
import RemoteCall.Proofs.Connection.Turn
import RemoteCall.Proofs.Connection.Moves
import RemoteCall.Proofs.Connection.Order
import RemoteCall.Proofs.Connection.Call
import RemoteCall.Proofs.Connection.Ready
import RemoteCall.Proofs.Connection.RoundTrip
import RemoteCall.Proofs.Store.Log
import RemoteCall.Proofs.Registry.Feed
import RemoteCall.Proofs.Registry.Drain
import RemoteCall.Proofs.Registry.Shared
import RemoteCall.Proofs.Registry.Announced
import RemoteCall.Store.Watched
import RemoteCall.Proofs.Store.Action
import RemoteCall.Proofs.Store.Leases
import RemoteCall.Proofs.Store.Replay
import RemoteCall.Proofs.Store.Watched
import RemoteCall.Proofs.Store.Scan
import RemoteCall.Proofs.Registry.Owners
import RemoteCall.Proofs.Registry.Listing
import RemoteCall.Resolver.Following
import RemoteCall.Proofs.Registry.Listed
import RemoteCall.Proofs.Registry.Followed
import RemoteCall.Proofs.Resolver.Following
import RemoteCall.Proofs.Resolver.Refresh
import RemoteCall.Proofs.Resolver.Session
import RemoteCall.Proofs.Store.Lifetimes
import RemoteCall.Registry.Timed
import RemoteCall.Proofs.Registry.Timers
import RemoteCall.Proofs.Registry.Timed
import RemoteCall.Proofs.Work.Ends
import RemoteCall.Proofs.Server.Dispatch
import RemoteCall.Proofs.Server.AllOrNothing
import RemoteCall.Proofs.Server.Answers
import RemoteCall.Proofs.Server.InTurn
import RemoteCall.Proofs.Server.Registered
import RemoteCall.Proofs.Payload
import RemoteCall.Proofs.Stub.Reply
import RemoteCall.Proofs.Stub.Transparent
import RemoteCall.Proofs.Selection.Interleaving
import RemoteCall.Proofs.Selection.Shares
import RemoteCall.Proofs.Selection.Recovery
import RemoteCall.Proofs.Selection.RoundRobin
import RemoteCall.Proofs.Message.Pieces
import RemoteCall.Proofs.Message.Carried
import RemoteCall.Proofs.Cluster.Reach
import RemoteCall.Proofs.Cluster.Closing
import RemoteCall.Proofs.Message.Agreement
import RemoteCall.Proofs.Context.Wire
import RemoteCall.Proofs.Declaration.Methods
import RemoteCall.Proofs.Cluster.InFlight
import RemoteCall.Proofs.Cluster.Broadcast
import RemoteCall.Proofs.Context.Deadline
import RemoteCall.Proofs.Registry.Overrun
import RemoteCall.Proofs.Cluster.Fastest
import RemoteCall.Proofs.Cluster.Race
import RemoteCall.Proofs.Selection.Draw
import RemoteCall.Proofs.Selection.Latency
import RemoteCall.Proofs.Selection.Sampling
import RemoteCall.Proofs.Selection.Drained
