import OrbMQ.Auth
import OrbMQ.Broker
import OrbMQ.Client
import OrbMQ.Server.Publish
import OrbMQ.Session.Store

/-!
# The state of the server (`internal/server`)

The server is a registry of connections (`clients`), the session store and the broker, and the
goroutines of its connections: a handler (`handleConn`), a delivery consumer and a writer each. A
connection is a number, in the order in which they were accepted. `Pc` says where its handler is,
with the local variables that the rest of the handler needs; between two places there is one atomic
section: a section under a lock, an operation on a channel, or a load of a snapshot.

The counters of the connection group, log lines and deadlines are left out: a deadline that passes
is an input of the step that observes it (`Input.fail`).
-/

namespace OrbMQ

open Go

/-- The fixed part of a server. -/
structure Config where
  auth : Option Local
  crypto : Crypto
  maxPacketSize : Int

/-- `activeConnection`; its client is that of the connection itself. -/
structure ActiveConnection where
  session : Nat
  cleanSession : Bool
  closing : Bool := false
  ready : Bool := false
  disconnectedAt : Time := 0
  done : Bool := false
  deriving DecidableEq, Repr

def ActiveConnection.beginClosing (now : Time) (a : ActiveConnection) : ActiveConnection :=
  if !a.closing then { a with closing := true, disconnectedAt := now } else a

/-! ## Where a handler is -/

/-- Whose publication `publishMessage` handles. -/
inductive Origin where
  | packet
  | will
  deriving DecidableEq, Repr

/-- What `deliverPublishToSubscriber` does next. -/
inductive Target where
  | enqueue (owner : Nat) (raw : Bytes)
  | close (owner : Nat)
  | admitMessage (r : Nat) (t : PublishTemplate)

/-- `publishMessage`: it holds the read lock from `retaining` on. -/
inductive PublishStage where
  | locking
  | retaining
  | matching
  | visiting (cache : PublishDeliveryCache) (err : Option Err) (subs : List (Subscription Nat))
  | delivering (cache : PublishDeliveryCache) (err : Option Err) (target : Target)
      (subs : List (Subscription Nat))
  | returning (err : Option Err)

def PublishStage.reading : PublishStage → Bool
  | .locking => false
  | _ => true

/-- The packet whose write a handler waits for. A SUBACK is followed by the retained messages of its
entries. -/
inductive Reply where
  | refusal
  | connack
  | response
  | suback (entries : List (Bytes × UInt8))

inductive Pc where
  -- `handleConn` up to the session
  | handshake
  | authenticating
  | rejecting (code : ConnAckReturnCode)
  | acquiring
  | takingOver (previous : Nat)
  | waitingFor (previous : Nat)
  | connack (sessionPresent : Bool)
  | readying
  | beginning
  -- `serve` and the handlers of packets
  | serving
  | handling (pkt : Packet)
  | subscribing (p : SubscribePacket) (codes : Bytes) (rest : List SubscribeEntry)
  | routing (p : SubscribePacket) (codes : Bytes) (filter : Bytes) (qos : UInt8)
      (rest : List SubscribeEntry)
  | replaying (entries : List (Bytes × UInt8))
  | offering (retained : List PublishPacket) (code : UInt8) (entries : List (Bytes × UInt8))
  | resuming (ok : Bool)
  | unsubscribing (p : UnsubscribePacket) (rest : List Bytes)
  | forgetting (p : UnsubscribePacket) (filter : Bytes) (rest : List Bytes)
  | publishing (origin : Origin) (p : PublishPacket) (stage : PublishStage)
  | acknowledging (packetID : UInt16)
  | awaiting (channel : Nat) (reply : Reply)
  -- the deferred functions of `handleConn`
  | ending (cleanDisconnect : Bool)
  | deferred
  | closingClient
  | joining
  | waitingWriter
  | closingSession
  | finished

/-- The handler holds the read lock of the registry. -/
def Pc.reading : Pc → Bool
  | .publishing _ _ stage => stage.reading
  | _ => false

def Reply.sent : Reply → Pc
  | .refusal => .deferred
  | .connack => .readying
  | .response => .serving
  | .suback entries => .replaying entries

def Reply.failed : Reply → Pc
  | .refusal => .deferred
  | .connack => .deferred
  | .response => .ending false
  | .suback _ => .resuming false

/-- `consumeDeliveries`. -/
inductive Consumer where
  | absent
  | polling (epoch : UInt64)
  | selecting (epoch : UInt64)
  | delivering (epoch : UInt64) (d : Delivery)
  | awaiting (epoch : UInt64) (channel : Nat)
  | failing
  | parked (epoch : UInt64)
  | returned

/-- A connection and the local variables of its handler; `active` is its `owner`. -/
structure Conn where
  connect : ConnectPacket := ⟨[], 0, false, 0, [], none, none, none⟩
  client : Client := {}
  identity : Bytes := []
  active : Option ActiveConnection := none
  consumer : Consumer := .absent
  pc : Pc := .handshake

instance : Inhabited Conn := ⟨{}⟩

structure Server where
  broker : Broker
  sessions : Store
  clients : Go.Map Bytes Nat := ∅
  conns : Nat → Conn := fun _ => {}
  accepted : Nat := 0
  authenticationRejections : UInt64 := 0
  authorizationRejections : UInt64 := 0

/-- What the environment decides in a step: the bytes that a decoder finds on its stream (what it
leaves is part of the next ones), whether a context has ended or a call on the connection fails, whether
the `select` of a consumer takes the token of `Changed()` although it could return as well, the time,
and the orders of range loops. -/
structure Input where
  raw : Bytes := []
  fail : Bool := false
  ended : Bool := false
  busy : Bool := false
  ended' : Bool := false
  token : Bool := false
  now : Time := 0
  later : Time := 0
  order : List Bytes := []
  subs : List (Subscription Nat) := []

inductive Action where
  | accept
  | handler (c : Nat) (i : Input)
  | consumer (c : Nat) (i : Input)
  | write (c : Nat) (n : Nat) (err : Option Err)
  | writerExit (c : Nat)
  | sweep (now : Time) (order : List Bytes)

namespace Server

def setConn (c : Nat) (f : Conn → Conn) (s : Server) : Server :=
  { s with conns := Function.update s.conns c (f (s.conns c)) }

/-- The handler of `c` goes on at `pc`. -/
def goto (c : Nat) (pc : Pc) (s : Server) : Server := s.setConn c ({ · with pc })

/-- A session after a call on it, with the totals. -/
def setSession (r : Nat) (res : State × Snapshot) (s : Server) : Server :=
  { s with sessions := s.sessions.set r res.1 res.2 }

def state (r : Nat) (s : Server) : State := s.sessions.states r

/-- Nobody holds the read lock. -/
def Unread (s : Server) : Prop := ∀ c < s.accepted, (s.conns c).pc.reading = false

instance (s : Server) : Decidable s.Unread := inferInstanceAs (Decidable (∀ c < s.accepted, _))

end Server

end OrbMQ
