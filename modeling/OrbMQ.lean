import OrbMQ.Lib.Io
import OrbMQ.Lib.Map
import OrbMQ.Lib.Utf8
import OrbMQ.Protocol.Packet
import OrbMQ.Protocol.Wire
import OrbMQ.Protocol.Decoder
import OrbMQ.Protocol.Grammar
import OrbMQ.Protocol.Connect
import OrbMQ.Protocol.Accepted
import OrbMQ.Protocol.Encoder
import OrbMQ.Protocol.Stream
import OrbMQ.Topic.Parse
import OrbMQ.Topic.Tree
import OrbMQ.Topic.Match
import OrbMQ.Topic.Cover
import OrbMQ.Broker
import OrbMQ.Broker.Retained
import OrbMQ.Auth
import OrbMQ.Client
import OrbMQ.Session.Queue
import OrbMQ.Lib.Redelivery
import OrbMQ.Session.Window
import OrbMQ.Session.History
import OrbMQ.Session.Store
import OrbMQ.Lib.Sys
import OrbMQ.Session.Account
import OrbMQ.Session.Inflight
import OrbMQ.Session.Entries
import OrbMQ.Session.Refusal
import OrbMQ.Session.Wakeup
import OrbMQ.Session.Turnover
import OrbMQ.Server.Publish
import OrbMQ.Server.State
import OrbMQ.Server.Step
import OrbMQ.Server.Registry
import OrbMQ.Server.Ownership
import OrbMQ.Server.Moves
import OrbMQ.Server.Frame
import OrbMQ.Server.Traffic
import OrbMQ.Server.Authorization
import OrbMQ.Server.RetainFlag
import OrbMQ.Client.Writes
import OrbMQ.Server.Response
import OrbMQ.Server.Lifetime
import OrbMQ.Server.Isolation
import OrbMQ.Server.Deadline
import OrbMQ.Server.Flow
import OrbMQ.Session.Firsts
import OrbMQ.Server.Order
import OrbMQ.Server.Replay
import OrbMQ.Topic.Language
import OrbMQ.Session.Search
import OrbMQ.Topic.Canonical
import OrbMQ.Client.Concurrent
import OrbMQ.Server.KeepAlive
import OrbMQ.Server.Anonymous
import OrbMQ.Server.Subscribe
import OrbMQ.Server.Fanout
import OrbMQ.Lib.Pool
import OrbMQ.Server.Connections
import OrbMQ.Server.Join
import OrbMQ.Server.Sessions
import OrbMQ.Server.Shutdown
import OrbMQ.Lib.Heap
import OrbMQ.Topic.Heap
import OrbMQ.Broker.Snapshots
import OrbMQ.Server.Conversation
import OrbMQ.Server.Start
import OrbMQ.Lib.Fair
import OrbMQ.Session.Between
import OrbMQ.Server.Delivery
import OrbMQ.Server.Arrival
