import OrbMQ.Server.Ownership

/-!
# What a step of the server can do

The sections of a handler differ in where they lead, but few of them reach beyond their own
connection. `Effect` lists what a section does to the rest of the server, and `Turn` says which
section does what and where its handler goes on; `Goes`, `Sends` and `Calls` are its cases that only
move on, send a packet, or call a method of the session. `Server.step_moves` inverts `Server.step`
once and for all, so that an invariant looks at the cases that matter to it, and the rest of them is
settled by what every effect leaves alone (`Effect.peer`, `Effect.calls`, ...).
-/

namespace OrbMQ

open Go

/-! ## Effects -/

/-- What a section of a connection does to the rest of the server. -/
inductive Effect where
  | idle
  | count (authentication authorization : UInt64)
  | call (r : Nat) (op : StateOp) (res : State × Snapshot)
  | subscribe (filter : Bytes) (qos : UInt8) (id : Bytes) (r : Nat)
  | unsubscribe (filter clientID : Bytes)
  | retain (p : PublishPacket)
  | enqueue (o : Nat) (raw : Bytes)
  | close (o : Nat)
  | takeOver (o : Nat) (now : Time)
  /-- `openSession`, which fails. -/
  | open (i : Input)
  | acquire (i : Input) (r : Nat)
  | release (owner : ActiveConnection)

namespace Effect

/-- The server after the effect of a section of `c`. -/
def apply (c : Nat) (s : Server) : Effect → Server
  | .idle => s
  | .count authentication authorization =>
    { s with authenticationRejections := authentication, authorizationRejections := authorization }
  | .call r _ res => s.setSession r res
  | .subscribe filter qos id r => { s with broker := s.broker.subscribe filter qos id r }
  | .unsubscribe filter clientID => { s with broker := s.broker.unsubscribe filter clientID }
  | .retain p => { s with broker := (s.broker.updateRetained p).2 }
  | .enqueue o raw => s.setConn o fun k => { k with client := (k.client.enqueue raw).2 }
  | .close o => s.setConn o fun k => { k with client := k.client.close }
  | .takeOver o now => s.setConn o fun k => { k with active := k.active.map (·.beginClosing now) }
  | .open i => (s.openSession (s.conns c).connect (s.conns c).identity i).2
  | .acquire i r =>
    let id := (s.conns c).client.id
    let s := (s.openSession (s.conns c).connect (s.conns c).identity i).2
    let s := (s.setSession r ((s.state r).markConnected, s.sessions.totals)).restore r
    { s with clients := s.clients.insert id c }
  | .release owner =>
    let id := (s.conns c).client.id
    let s := if owner.cleanSession then
        { s with sessions := s.sessions.delete id, broker := s.broker.unsubscribeAll id }
      else s.setSession owner.session
        ((s.state owner.session).markDisconnectedAt owner.disconnectedAt, s.sessions.totals)
    { s with clients := s.clients.erase id }

end Effect

namespace Server

/-! ## The sections of a handler -/

section Sections

variable (cfg : Config) (s : Server) (c : Nat) (i : Input)

/-- The handler of `c` goes on at another place, and nothing else happens. -/
inductive Goes : Pc → Pc → Prop
  | refused {identity : Bytes} {code : ConnAckReturnCode} :
      authenticateConnect cfg i (s.conns c).connect = (identity, code) → code ≠ .accepted →
      Goes .authenticating (.rejecting code)
  | late : Goes .acquiring .deferred
  | foreign {r : Nat} : s.sessions.data[(s.conns c).client.id]? = some r →
      (s.state r).owner ≠ (s.conns c).identity → Goes .acquiring (.rejecting .notAuthorized)
  | gaveUp {previous : Nat} : Goes (.waitingFor previous) .deferred
  | again {previous : Nat} : (s.conns previous).active.any (·.done) = true →
      Goes (.waitingFor previous) .acquiring
  | unanswered {present : Bool} : Goes (.connack present) .deferred
  | unready : Goes .readying .deferred
  | unsubscribe {p : UnsubscribePacket} : Goes (.handling (.unsubscribe p)) (.unsubscribing p p.topics)
  | publish {p : PublishPacket} {a : ActiveConnection} : (s.conns c).active = some a →
      canPublish cfg (s.state a.session).owner p.topic = true →
      Goes (.handling (.publish p)) (.publishing .packet p .locking)
  | over {pkt : Packet} {clean : Bool} : (∀ p, pkt ≠ .subscribe p) → (∀ p, pkt ≠ .publish p) →
      Goes (.handling pkt) (.ending clean)
  | replayed : Goes (.replaying []) (.resuming true)
  | refusedEntry {filter : Bytes} {entries : List (Bytes × UInt8)} :
      Goes (.replaying ((filter, 0x80) :: entries)) (.replaying entries)
  | load {filter : Bytes} {code : UInt8} {entries : List (Bytes × UInt8)} : code ≠ 0x80 →
      Map.Ranges s.broker.retained i.order → Goes (.replaying ((filter, code) :: entries))
        (.offering (s.broker.retainedMatching filter i.order) code entries)
  | offered {code : UInt8} {entries : List (Bytes × UInt8)} :
      Goes (.offering [] code entries) (.replaying entries)
  | unencoded {m : PublishPacket} {rest : List PublishPacket} {code : UInt8}
      {entries : List (Bytes × UInt8)} : Goes (.offering (m :: rest) code entries) (.resuming false)
  | lock {origin : Origin} {p : PublishPacket} :
      Goes (.publishing origin p .locking) (.publishing origin p .retaining)
  | pass {origin : Origin} {p : PublishPacket} : p.retain = false →
      Goes (.publishing origin p .retaining) (.publishing origin p .matching)
  | matched {origin : Origin} {p : PublishPacket} : s.broker.topics.Matches p.topic i.subs →
      Goes (.publishing origin p .matching) (.publishing origin p (.visiting {} none i.subs))
  | visited {origin : Origin} {p : PublishPacket} {cache : PublishDeliveryCache} {err : Option Err} :
      Goes (.publishing origin p (.visiting cache err [])) (.publishing origin p (.returning err))
  /-- The session is gone, or there is no connection to send to. -/
  | skip {origin : Origin} {p : PublishPacket} {cache : PublishDeliveryCache} {err : Option Err}
      {sub : Subscription Nat} {subs : List (Subscription Nat)} :
      s.sessions.data[sub.clientID]? ≠ some sub.subscriber ∨ deliveryQoS p.qos sub.qos = 0 →
      Goes (.publishing origin p (.visiting cache err (sub :: subs)))
        (.publishing origin p (.visiting cache err subs))
  | failed {origin : Origin} {p : PublishPacket} {cache cache' : PublishDeliveryCache} {err : Option Err}
      {sub : Subscription Nat} {subs : List (Subscription Nat)} {e : Err} :
      cache.outgoing p sub.qos = (.error e, cache') →
      Goes (.publishing origin p (.visiting cache err (sub :: subs)))
        (.publishing origin p (.visiting cache' (some e) subs))
  | send {origin : Origin} {p : PublishPacket} {cache cache' : PublishDeliveryCache} {err : Option Err}
      {sub : Subscription Nat} {subs : List (Subscription Nat)} {raw : Bytes} {o : Nat}
      {a : ActiveConnection} : s.sessions.data[sub.clientID]? = some sub.subscriber →
      cache.outgoing p sub.qos = (.ok (.packet raw), cache') → s.clients[sub.clientID]? = some o →
      (s.conns o).active = some a → a.closing = false → a.ready = true → a.session = sub.subscriber →
      Goes (.publishing origin p (.visiting cache err (sub :: subs)))
        (.publishing origin p (.delivering cache' err (.enqueue o raw) subs))
  | queue {origin : Origin} {p : PublishPacket} {cache cache' : PublishDeliveryCache} {err : Option Err}
      {sub : Subscription Nat} {subs : List (Subscription Nat)} {t : PublishTemplate} :
      s.sessions.data[sub.clientID]? = some sub.subscriber →
      cache.outgoing p sub.qos = (.ok (.template t), cache') →
      Goes (.publishing origin p (.visiting cache err (sub :: subs)))
        (.publishing origin p (.delivering cache' err (.admitMessage sub.subscriber t) subs))
  | returned {origin : Origin} {p : PublishPacket} {err : Option Err} :
      Goes (.publishing origin p (.returning err)) (published origin p err)
  | written {channel : Nat} {reply : Reply} : (s.conns c).client.awaitSend channel = some (.ok ()) →
      Goes (.awaiting channel reply) reply.sent
  | unwritten {channel : Nat} {reply : Reply} : Goes (.awaiting channel reply) reply.failed
  | ended {clean : Bool} : Goes (.ending clean) .deferred
  | will {w : WillMessage} : (s.conns c).connect.will = some w →
      Goes (.ending false) (.publishing .will (willPublish w) .locking)
  | unowned : (s.conns c).active = none → Goes .deferred .closingClient
  | joined : (s.conns c).consumer = .absent ∨ (s.conns c).consumer = .returned →
      Goes .joining .waitingWriter
  | drained : (s.conns c).client.writeDone = true → Goes .waitingWriter .closingSession
  | finished : (s.conns c).active = none → Goes .closingSession .finished

/-- A handler sends a packet of its own and waits for it to be written. -/
inductive Sends : Pc → Packet → Reply → Prop
  | connack {present : Bool} : Sends (.connack present) (.connAck ⟨present, .accepted⟩) .connack
  | pingResp : Sends (.handling .pingReq) .pingResp .response
  | subAck {p : SubscribePacket} {codes : Bytes} : Sends (.subscribing p codes [])
      (.subAck ⟨p.packetID, codes⟩) (.suback ((p.subscriptions.map (·.topic)).zip codes))
  | unsubAck {p : UnsubscribePacket} : Sends (.unsubscribing p []) (.unsubAck ⟨p.packetID⟩) .response
  | pubAck {packetID : UInt16} : Sends (.acknowledging packetID) (.pubAck ⟨packetID⟩) .response

/-- A handler calls a method of its session `r`. -/
inductive Calls (r : Nat) : Pc → StateOp → Pc → Prop
  | ack {p : PubAckPacket} : Calls r (.handling (.pubAck p)) (.ack p.packetID) .serving
  | pause {p : SubscribePacket} :
      Calls r (.handling (.subscribe p)) .pauseDelivery (.subscribing p [] p.subscriptions)
  | refused {p : SubscribePacket} {codes : Bytes} {sub : SubscribeEntry} {rest : List SubscribeEntry} {e : Err} :
      ((s.state r).setSubscription s.sessions.limits sub.topic (if sub.qos > 1 then 1 else sub.qos)
        s.sessions.totals).1 = .error e →
      Calls r (.subscribing p codes (sub :: rest))
        (.setSubscription sub.topic (if sub.qos > 1 then 1 else sub.qos))
        (.subscribing p (codes ++ [0x80]) rest)
  | subscribe {p : SubscribePacket} {codes : Bytes} {sub : SubscribeEntry} {rest : List SubscribeEntry} :
      canSubscribe cfg (s.state r).owner sub.topic = true →
      ((s.state r).setSubscription s.sessions.limits sub.topic (if sub.qos > 1 then 1 else sub.qos)
        s.sessions.totals).1 = .ok () →
      Calls r (.subscribing p codes (sub :: rest))
        (.setSubscription sub.topic (if sub.qos > 1 then 1 else sub.qos))
        (.routing p codes sub.topic (if sub.qos > 1 then 1 else sub.qos) rest)
  | offer {m : PublishPacket} {rest : List PublishPacket} {code : UInt8} {entries : List (Bytes × UInt8)}
      {t : PublishTemplate} {reason : Option DropReason} : deliveryQoS m.qos code = 1 →
      newPublishTemplate (newOutboundPublish m 1) = .ok t →
      ((s.state r).admitMessage s.sessions.limits i.now t.raw t.packetIDOffset s.sessions.totals).1 =
        .ok reason →
      Calls r (.offering (m :: rest) code entries) (.admitMessage i.now t.raw t.packetIDOffset)
        (.offering rest code entries)
  | offerFails {m : PublishPacket} {rest : List PublishPacket} {code : UInt8}
      {entries : List (Bytes × UInt8)} {t : PublishTemplate} {e : Err} : deliveryQoS m.qos code = 1 →
      newPublishTemplate (newOutboundPublish m 1) = .ok t →
      ((s.state r).admitMessage s.sessions.limits i.now t.raw t.packetIDOffset s.sessions.totals).1 =
        .error e →
      Calls r (.offering (m :: rest) code entries) (.admitMessage i.now t.raw t.packetIDOffset)
        (.resuming false)
  | resume {ok : Bool} : Calls r (.resuming ok) .resumeDelivery (if ok then .serving else .ending false)
  | forget {p : UnsubscribePacket} {filter : Bytes} {rest : List Bytes} :
      Calls r (.forgetting p filter rest) (.deleteSubscription filter) (.unsubscribing p rest)

/-- A section of the handler of `c`: its effect on the server, and then what becomes of `c`. -/
inductive Turn : Effect → (Conn → Conn) → Prop
  | goes {pc pc' : Pc} : (s.conns c).pc = pc → Goes cfg s c i pc pc' → Turn .idle ({ · with pc := pc' })
  | handshake : (s.conns c).pc = .handshake → Turn .idle (·.handshake cfg i)
  | authenticated {identity : Bytes} : (s.conns c).pc = .authenticating →
      authenticateConnect cfg i (s.conns c).connect = (identity, .accepted) →
      Turn .idle fun k =>
        { k with connect := { k.connect with username := none, password := none }, identity, pc := .acquiring }
  | reject {code : ConnAckReturnCode} {authentication authorization : UInt64} :
      (s.conns c).pc = .rejecting code →
      Turn (.count authentication authorization) (·.sendPacket (.connAck ⟨false, code⟩) .refusal)
  | denied {pc pc' : Pc} {authentication authorization : UInt64} : (s.conns c).pc = pc →
      (∃ p, pc = .handling (.publish p) ∧ pc' = .ending false) ∨
        (∃ p codes sub rest, pc = .subscribing p codes (sub :: rest) ∧
          pc' = .subscribing p (codes ++ [0x80]) rest) →
      Turn (.count authentication authorization) ({ · with pc := pc' })
  | takeOver {previous : Nat} : (s.conns c).pc = .acquiring → s.Unread →
      (∀ r, s.sessions.data[(s.conns c).client.id]? = some r → (s.state r).owner = (s.conns c).identity) →
      s.clients[(s.conns c).client.id]? = some previous →
      Turn (.takeOver previous i.now) ({ · with pc := .takingOver previous })
  | unopened {e : Err} : (s.conns c).pc = .acquiring → s.Unread →
      (∀ r, s.sessions.data[(s.conns c).client.id]? = some r → (s.state r).owner = (s.conns c).identity) →
      s.clients[(s.conns c).client.id]? = none →
      (s.openSession (s.conns c).connect (s.conns c).identity i).1 = .error e →
      Turn (.open i) ({ · with pc := if e = errSessionOwner then .rejecting .notAuthorized else .deferred })
  | acquire {r : Nat} {present : Bool} : (s.conns c).pc = .acquiring → s.Unread →
      (∀ r, s.sessions.data[(s.conns c).client.id]? = some r → (s.state r).owner = (s.conns c).identity) →
      s.clients[(s.conns c).client.id]? = none →
      (s.openSession (s.conns c).connect (s.conns c).identity i).1 = .ok (r, present) →
      Turn (.acquire i r) fun k =>
        { k with active := some { session := r, cleanSession := k.connect.cleanSession }, pc := .connack present }
  | closePrevious {previous : Nat} : (s.conns c).pc = .takingOver previous →
      Turn (.close previous) ({ · with pc := .waitingFor previous })
  | sends {pc : Pc} {pkt : Packet} {reply : Reply} : (s.conns c).pc = pc → Sends pc pkt reply →
      Turn .idle (·.sendPacket pkt reply)
  | ready : (s.conns c).pc = .readying → s.Unread →
      Turn .idle fun k => { k with active := k.active.map ({ · with ready := true }), pc := .beginning }
  | begin {a : ActiveConnection} : (s.conns c).pc = .beginning → (s.conns c).active = some a →
      Turn (.call a.session .beginDelivery ((s.state a.session).beginDelivery.2, s.sessions.totals))
        ({ · with consumer := .polling (s.state a.session).beginDelivery.1, pc := .serving })
  | serve : (s.conns c).pc = .serving → Turn .idle (·.serve cfg i)
  | calls {pc pc' : Pc} {a : ActiveConnection} {op : StateOp} {res : State × Snapshot} :
      (s.conns c).pc = pc → (s.conns c).active = some a → Calls cfg s i a.session pc op pc' →
      op.run s.sessions.limits (s.state a.session) s.sessions.totals = some res →
      Turn (.call a.session op res) ({ · with pc := pc' })
  | route {a : ActiveConnection} {p : SubscribePacket} {codes filter : Bytes} {qos : UInt8}
      {rest : List SubscribeEntry} : (s.conns c).pc = .routing p codes filter qos rest →
      (s.conns c).active = some a →
      Turn (.subscribe filter qos (s.state a.session).id a.session)
        ({ · with pc := .subscribing p (codes ++ [qos]) rest })
  | unroute {a : ActiveConnection} {p : UnsubscribePacket} {filter : Bytes} {rest : List Bytes} :
      (s.conns c).pc = .unsubscribing p (filter :: rest) → (s.conns c).active = some a →
      Turn (.unsubscribe filter (s.conns c).client.id) ({ · with pc := .forgetting p filter rest })
  /-- A retained message with QoS 0 goes to the handler's own connection. -/
  | offer {m : PublishPacket} {rest : List PublishPacket} {code : UInt8} {entries : List (Bytes × UInt8)}
      {raw : Bytes} {pc' : Pc} : (s.conns c).pc = .offering (m :: rest) code entries →
      (s.conns c).active ≠ none → deliveryQoS m.qos code ≠ 1 →
      encodePublishPacket (newOutboundPublish m (deliveryQoS m.qos code)) = .ok raw →
      pc' = .offering rest code entries ∨ pc' = .resuming false →
      Turn .idle fun k => { k with client := (k.client.enqueue raw).2, pc := pc' }
  | retain {origin : Origin} {p : PublishPacket} : (s.conns c).pc = .publishing origin p .retaining →
      p.retain = true →
      Turn (.retain p) ({ · with pc := .publishing origin p (match (s.broker.updateRetained p).1 with
        | .error e => .returning (some e)
        | .ok _ => .matching) })
  | enqueue {origin : Origin} {p : PublishPacket} {cache : PublishDeliveryCache} {err : Option Err}
      {o : Nat} {raw : Bytes} {subs : List (Subscription Nat)} :
      (s.conns c).pc = .publishing origin p (.delivering cache err (.enqueue o raw) subs) →
      Turn (.enqueue o raw) ({ · with pc := .publishing origin p (match ((s.conns o).client.enqueue raw).1 with
        | .ok _ => .visiting cache err subs
        | .error _ => .delivering cache err (.close o) subs) })
  | close {origin : Origin} {p : PublishPacket} {cache : PublishDeliveryCache} {err : Option Err}
      {o : Nat} {subs : List (Subscription Nat)} :
      (s.conns c).pc = .publishing origin p (.delivering cache err (.close o) subs) →
      Turn (.close o) ({ · with pc := .publishing origin p (.visiting cache err subs) })
  | admission {origin : Origin} {p : PublishPacket} {cache : PublishDeliveryCache} {err : Option Err}
      {r : Nat} {t : PublishTemplate} {subs : List (Subscription Nat)}
      {result : Except Err (Option DropReason)} {res : State × Snapshot} :
      (s.conns c).pc = .publishing origin p (.delivering cache err (.admitMessage r t) subs) →
      (s.state r).admitMessage s.sessions.limits i.now t.raw t.packetIDOffset s.sessions.totals =
        (result, res) →
      Turn (.call r (.admitMessage i.now t.raw t.packetIDOffset) res)
        ({ · with pc := .publishing origin p (.visiting cache (match result with
          | .ok _ => err
          | .error e => some e) subs) })
  | beginClosing : (s.conns c).pc = .deferred → s.Unread →
      Turn .idle fun k => { k with active := k.active.map (·.beginClosing i.now), pc := .closingClient }
  | closeClient : (s.conns c).pc = .closingClient →
      Turn .idle fun k => { k with client := k.client.close, pc := .joining }
  | release {a : ActiveConnection} : (s.conns c).pc = .closingSession → s.Unread →
      (s.conns c).active = some a →
      Turn (.release a) ({ · with active := some { a with done := true }, pc := .finished })

/-- A section of the delivery consumer of `c`. -/
inductive ConsumerTurn : Effect → (Conn → Conn) → Prop
  | poll {epoch : UInt64} : (s.conns c).consumer = .polling epoch →
      ConsumerTurn .idle ({ · with consumer := .selecting epoch })
  | leave {epoch : UInt64} : (s.conns c).consumer = .polling epoch ∨ (s.conns c).consumer = .parked epoch →
      ConsumerTurn .idle ({ · with consumer := .returned })
  | next {epoch : UInt64} {a : ActiveConnection} {d : Option Delivery} {res : State × Snapshot} :
      (s.conns c).consumer = .selecting epoch → (s.conns c).active = some a →
      (s.state a.session).next s.sessions.limits epoch s.sessions.totals = some (d, res) →
      ConsumerTurn (.call a.session (.next epoch) res) ({ · with consumer := match d with
        | some d => .delivering epoch d
        | none => .parked epoch })
  | send {epoch : UInt64} {d : Delivery} : (s.conns c).consumer = .delivering epoch d →
      ConsumerTurn .idle fun k => { k with
        client := (k.client.send d.data).2
        consumer := match (k.client.send d.data).1 with
          | .ok channel => .awaiting epoch channel
          | .error _ => .failing }
  | sent {epoch : UInt64} {channel : Nat} {consumer : Consumer} :
      (s.conns c).consumer = .awaiting epoch channel → consumer = .polling epoch ∨ consumer = .failing →
      ConsumerTurn .idle ({ · with consumer })
  | fail : (s.conns c).consumer = .failing →
      ConsumerTurn .idle fun k => { k with client := k.client.close, consumer := .returned }
  | wake {epoch : UInt64} {a : ActiveConnection} {state : State} :
      (s.conns c).consumer = .parked epoch → (s.conns c).active = some a →
      (s.state a.session).receiveChanged = some state →
      ConsumerTurn (.call a.session .changed (state, s.sessions.totals))
        ({ · with consumer := .polling epoch })

/-- A step of the server, by what it does. -/
inductive Moves : Action → Server → Prop
  | accept : Moves .accept { s with accepted := s.accepted + 1 }
  | handler {c : Nat} {i : Input} {e : Effect} {f : Conn → Conn} : c < s.accepted → Turn cfg s c i e f →
      Moves (.handler c i) ((e.apply c s).setConn c f)
  | consumer {c : Nat} {i : Input} {e : Effect} {f : Conn → Conn} : c < s.accepted →
      ConsumerTurn s c e f → Moves (.consumer c i) ((e.apply c s).setConn c f)
  | write {c n : Nat} {err : Option Err} {client : Client} : c < s.accepted →
      (s.conns c).client.writeNext n err = some client →
      Moves (.write c n err) (s.setConn c ({ · with client }))
  | writerExit {c : Nat} {client : Client} : c < s.accepted →
      (s.conns c).client.writerExit = some client →
      Moves (.writerExit c) (s.setConn c ({ · with client }))
  | sweep {now : Time} {order : List Bytes} : s.Unread → Map.Ranges s.sessions.data order →
      Moves (.sweep now order) (s.sweep now order)

end Sections

/-! ## Every section is one of them -/

variable {cfg : Config} {s s' : Server} {c : Nat} {i : Input}

/-- Some section of the handler of `c` leads to `s'`. -/
def Turns (cfg : Config) (s : Server) (c : Nat) (i : Input) (s' : Server) : Prop :=
  ∃ e f, Turn cfg s c i e f ∧ s' = (e.apply c s).setConn c f

theorem Goes.turns {pc pc' : Pc} (hpc : (s.conns c).pc = pc) (h : Goes cfg s c i pc pc') :
    Turns cfg s c i (s.goto c pc') := ⟨_, _, .goes hpc h, rfl⟩

theorem authenticate_turns (hpc : (s.conns c).pc = .authenticating) :
    Turns cfg s c i (s.authenticate cfg c i) := by
  unfold authenticate
  split
  · exact ⟨_, _, .authenticated hpc ‹_›, rfl⟩
  · rename_i hcode hres
    exact Goes.turns hpc (.refused hres hcode)

theorem rejectConnection_turns {code : ConnAckReturnCode} (hpc : (s.conns c).pc = .rejecting code) :
    Turns cfg s c i (s.rejectConnection c code) := by
  unfold rejectConnection
  split <;> exact ⟨_, _, .reject hpc, rfl⟩

theorem acquireConnection_turns (hu : s.Unread) (hpc : (s.conns c).pc = .acquiring) :
    Turns cfg s c i (s.acquireConnection c i) := by
  unfold acquireConnection
  dsimp only
  split
  · exact Goes.turns hpc .late
  · split
    · rename_i hany
      rw [Option.any_eq_true] at hany
      obtain ⟨r, hr, howner⟩ := hany
      exact Goes.turns hpc (.foreign hr (of_decide_eq_true howner))
    · rename_i hany
      have howner : ∀ r, s.sessions.data[(s.conns c).client.id]? = some r →
          (s.state r).owner = (s.conns c).identity := by
        intro r hr
        by_contra hne
        exact hany (by rw [Store.get, hr]; simpa using hne)
      split
      · exact ⟨_, _, .takeOver hpc hu howner ‹_›, rfl⟩
      · rename_i hc
        rcases ho : s.openSession (s.conns c).connect (s.conns c).identity i with ⟨res, s₁⟩
        have h1 : (s.openSession (s.conns c).connect (s.conns c).identity i).1 = res := by rw [ho]
        have h2 : (s.openSession (s.conns c).connect (s.conns c).identity i).2 = s₁ := by rw [ho]
        cases res with
        | error e => exact ⟨_, _, .unopened hpc hu howner hc h1, by rw [Effect.apply, h2]; rfl⟩
        | ok x => exact ⟨_, _, .acquire (r := x.1) hpc hu howner hc h1, by rw [Effect.apply, h2]⟩

theorem handlePacket_turns {a : ActiveConnection} {pkt : Packet} (hpc : (s.conns c).pc = .handling pkt)
    (ha : (s.conns c).active = some a) : Turns cfg s c i (s.handlePacket cfg c a pkt) := by
  unfold handlePacket
  split
  · exact ⟨_, _, .sends hpc .pingResp, rfl⟩
  · exact ⟨_, _, .calls hpc ha .ack rfl, rfl⟩
  · exact ⟨_, _, .calls hpc ha .pause rfl, rfl⟩
  · exact Goes.turns hpc .unsubscribe
  · dsimp only
    split
    · exact Goes.turns hpc (.publish ha ‹_›)
    · exact ⟨_, _, .denied hpc (.inl ⟨_, rfl, rfl⟩), rfl⟩
  · exact Goes.turns hpc (.over nofun nofun)
  · exact Goes.turns hpc (.over ‹_› ‹_›)

theorem handleSubscribe_turns {a : ActiveConnection} {p : SubscribePacket} {codes : Bytes}
    {rest : List SubscribeEntry} (hpc : (s.conns c).pc = .subscribing p codes rest)
    (ha : (s.conns c).active = some a) : Turns cfg s c i (s.handleSubscribe cfg c a p codes rest) := by
  unfold handleSubscribe
  split
  · exact ⟨_, _, .sends hpc .subAck, rfl⟩
  · rename_i sub rest
    dsimp only
    split
    · exact ⟨_, _, .denied hpc (.inr ⟨_, _, _, _, rfl, rfl⟩), rfl⟩
    · rename_i hallowed
      split
      · exact ⟨_, _, .calls hpc ha (.refused ‹_›) rfl, rfl⟩
      · exact ⟨_, _, .calls hpc ha (.subscribe (by simpa using hallowed) ‹_›) rfl, rfl⟩

theorem offer_turns {a : ActiveConnection} {m : PublishPacket} {rest : List PublishPacket} {code : UInt8}
    {entries : List (Bytes × UInt8)} (hpc : (s.conns c).pc = .offering (m :: rest) code entries)
    (ha : (s.conns c).active = some a) :
    Turns cfg s c i (s.offer c a i m code (.offering rest code entries)) := by
  unfold offer
  dsimp only
  split
  · rename_i hq
    have hq : deliveryQoS m.qos code = 1 := hq
    rw [hq]
    split
    · exact Goes.turns hpc .unencoded
    · rename_i t ht
      rcases hres : (s.state a.session).admitMessage s.sessions.limits i.now t.raw t.packetIDOffset
        s.sessions.totals with ⟨res, changed⟩
      have hop : (StateOp.admitMessage i.now t.raw t.packetIDOffset).run s.sessions.limits
          (s.state a.session) s.sessions.totals = some changed := by
        rw [StateOp.run, hres]
      cases res with
      | error e => exact ⟨_, _, .calls hpc ha (.offerFails hq ht (congrArg Prod.fst hres)) hop, rfl⟩
      | ok reason => exact ⟨_, _, .calls hpc ha (.offer hq ht (congrArg Prod.fst hres)) hop, rfl⟩
  · rename_i hq
    split
    · exact Goes.turns hpc .unencoded
    · rename_i raw hraw
      have hactive : (s.conns c).active ≠ none := by simp [ha]
      refine ⟨.idle, _, .offer hpc hactive hq hraw ?_, setConn_congr rfl⟩
      split
      · exact .inr rfl
      · exact .inl rfl

theorem visit_turns {origin : Origin} {p : PublishPacket} {cache : PublishDeliveryCache}
    {err : Option Err} {sub : Subscription Nat} {subs : List (Subscription Nat)}
    (hpc : (s.conns c).pc = .publishing origin p (.visiting cache err (sub :: subs))) :
    Turns cfg s c i (s.visit c origin p cache err sub subs) := by
  unfold visit
  dsimp only
  split
  · rename_i hget
    exact Goes.turns hpc (.skip (.inl fun h => by rw [Store.get, h] at hget; cases hget))
  · rename_i r hget
    split
    · rename_i hne
      refine Goes.turns hpc (.skip (.inl fun h => hne ?_))
      rw [Store.get, h] at hget
      exact Option.some.inj hget
    · rename_i hsub
      obtain rfl := not_not.mp hsub
      split
      · rename_i hq
        split
        · exact Goes.turns hpc (.skip (.inr hq))
        · rename_i o ho
          split
          · exact Goes.turns hpc (.skip (.inr hq))
          · rename_i hready
            rw [Option.all_eq_true] at hready
            have hout : cache.outgoing p sub.qos =
                ((cache.qos0Payload (newOutboundPublish p (deliveryQoS p.qos sub.qos))).1.map .packet,
                  (cache.qos0Payload (newOutboundPublish p (deliveryQoS p.qos sub.qos))).2) := by
              simp only [PublishDeliveryCache.outgoing, if_pos hq]
            simp only [Bool.or_eq_true, Bool.not_eq_true', decide_eq_true_eq, not_forall, not_or] at hready
            obtain ⟨a, ha, ⟨hclosing, hflag⟩, hses⟩ := hready
            split
            · rename_i e cache' hraw
              rw [hraw] at hout
              exact Goes.turns hpc (.failed hout)
            · rename_i raw cache' hraw
              rw [hraw] at hout
              exact Goes.turns hpc (.send hget hout ho ha (by simpa using hclosing) (by simpa using hflag)
                (not_not.mp hses))
      · rename_i hq
        have hout : cache.outgoing p sub.qos =
            ((cache.qos1Template (newOutboundPublish p (deliveryQoS p.qos sub.qos))).1.map .template,
              (cache.qos1Template (newOutboundPublish p (deliveryQoS p.qos sub.qos))).2) := by
          simp only [PublishDeliveryCache.outgoing, if_neg hq]
        split
        · rename_i e cache' ht
          rw [ht] at hout
          exact Goes.turns hpc (.failed hout)
        · rename_i t cache' ht
          rw [ht] at hout
          exact Goes.turns hpc (.queue hget hout)

theorem deliver_turns {origin : Origin} {p : PublishPacket} {cache : PublishDeliveryCache}
    {err : Option Err} {target : Target} {subs : List (Subscription Nat)}
    (hpc : (s.conns c).pc = .publishing origin p (.delivering cache err target subs)) :
    Turns cfg s c i (s.deliver c i origin p cache err target subs) := by
  cases target with
  | enqueue o raw => exact ⟨_, _, .enqueue hpc, rfl⟩
  | close o => exact ⟨_, _, .close hpc, rfl⟩
  | admitMessage r t => exact ⟨_, _, .admission hpc rfl, rfl⟩

theorem publishMessage_turns {origin : Origin} {p : PublishPacket} {st : PublishStage}
    (hpc : (s.conns c).pc = .publishing origin p st) (hs : s.publishMessage c i origin p st = some s') :
    Turns cfg s c i s' := by
  cases st with
  | locking => cases hs; exact Goes.turns hpc .lock
  | retaining =>
    simp only [publishMessage] at hs
    split at hs
    · rename_i hretain
      refine ⟨_, _, .retain hpc hretain, ?_⟩
      rcases hu : s.broker.updateRetained p with ⟨res, broker⟩
      rw [hu] at hs
      cases res <;>
      · cases hs
        simp only [Effect.apply, hu]
        rfl
    · rename_i hretain
      cases hs
      exact Goes.turns hpc (.pass (by simpa using hretain))
  | matching =>
    simp only [publishMessage] at hs
    split at hs
    · rename_i hm
      cases hs
      exact Goes.turns hpc (.matched hm)
    · cases hs
  | visiting cache err subs =>
    cases subs with
    | nil => cases hs; exact Goes.turns hpc .visited
    | cons sub subs => cases hs; exact visit_turns hpc
  | delivering cache err target subs => cases hs; exact deliver_turns hpc
  | returning err => cases hs; exact Goes.turns hpc .returned

/-- An owner that closes is registered. -/
theorem closeSession_turns (h : s.Refines cfg) (hu : s.Unread) (hpc : (s.conns c).pc = .closingSession)
    {a : ActiveConnection} (ha : (s.conns c).active = some a) :
    Turns cfg s c i ((s.closeSession c).goto c .finished) := by
  refine ⟨_, _, .release hpc hu ha, ?_⟩
  have hreg := (h.owns (hpc ▸ nofun) ha).1
  simp only [closeSession, ha, hreg, if_true, Effect.apply]
  simp only [goto, setConn, Function.update_self, Function.update_idem]

/-- **What a handler can do.** -/
theorem handlerStep_turns (h : s.Refines cfg) (hs : s.handlerStep cfg c i = some s') :
    Turns cfg s c i s' := by
  unfold handlerStep at hs
  dsimp only at hs
  cases hpc : (s.conns c).pc with
  | handshake => rw [hpc] at hs; cases hs; exact ⟨_, _, .handshake hpc, rfl⟩
  | authenticating => rw [hpc] at hs; cases hs; exact authenticate_turns hpc
  | rejecting code => rw [hpc] at hs; cases hs; exact rejectConnection_turns hpc
  | acquiring =>
    rw [hpc] at hs
    dsimp only at hs
    split at hs
    · cases hs; exact acquireConnection_turns ‹_› hpc
    · cases hs
  | takingOver previous => rw [hpc] at hs; cases hs; exact ⟨_, _, .closePrevious hpc, rfl⟩
  | waitingFor previous =>
    rw [hpc] at hs
    dsimp only at hs
    repeat' split at hs
    all_goals cases hs
    · exact Goes.turns hpc .gaveUp
    · exact Goes.turns hpc (.again ‹_›)
  | connack present =>
    rw [hpc] at hs
    dsimp only at hs
    split at hs <;> cases hs
    · exact Goes.turns hpc .unanswered
    · exact ⟨_, _, .sends hpc .connack, rfl⟩
  | readying =>
    rw [hpc] at hs
    dsimp only at hs
    repeat' split at hs
    all_goals cases hs
    · exact Goes.turns hpc .unready
    · exact ⟨_, _, .ready hpc ‹_›, rfl⟩
  | beginning =>
    rw [hpc] at hs
    obtain ⟨a, ha, rfl⟩ := Option.map_eq_some_iff.mp hs
    exact ⟨_, _, .begin hpc ha, rfl⟩
  | serving => rw [hpc] at hs; cases hs; exact ⟨_, _, .serve hpc, rfl⟩
  | handling pkt =>
    rw [hpc] at hs
    obtain ⟨a, ha, rfl⟩ := Option.map_eq_some_iff.mp hs
    exact handlePacket_turns hpc ha
  | subscribing p codes rest =>
    rw [hpc] at hs
    obtain ⟨a, ha, rfl⟩ := Option.map_eq_some_iff.mp hs
    exact handleSubscribe_turns hpc ha
  | routing p codes f q rest =>
    rw [hpc] at hs
    obtain ⟨a, ha, rfl⟩ := Option.map_eq_some_iff.mp hs
    exact ⟨_, _, .route hpc ha, rfl⟩
  | replaying entries =>
    rw [hpc] at hs
    cases entries with
    | nil => cases hs; exact Goes.turns hpc .replayed
    | cons e entries =>
      dsimp only at hs
      split at hs
      · rename_i hcode
        obtain ⟨f, code⟩ := e
        cases hcode
        cases hs
        exact Goes.turns hpc .refusedEntry
      · rename_i hcode
        split at hs <;> cases hs
        exact Goes.turns hpc (.load hcode ‹_›)
  | offering retained code entries =>
    rw [hpc] at hs
    cases retained with
    | nil => cases hs; exact Goes.turns hpc .offered
    | cons m rest =>
      obtain ⟨a, ha, rfl⟩ := Option.map_eq_some_iff.mp hs
      exact offer_turns hpc ha
  | resuming ok =>
    rw [hpc] at hs
    obtain ⟨a, ha, rfl⟩ := Option.map_eq_some_iff.mp hs
    exact ⟨_, _, .calls hpc ha .resume rfl, rfl⟩
  | unsubscribing p rest =>
    rw [hpc] at hs
    cases rest with
    | nil => cases hs; exact ⟨_, _, .sends hpc .unsubAck, rfl⟩
    | cons f rest =>
      obtain ⟨a, ha, rfl⟩ := Option.map_eq_some_iff.mp hs
      exact ⟨_, _, .unroute hpc ha, rfl⟩
  | forgetting p f rest =>
    rw [hpc] at hs
    obtain ⟨a, ha, rfl⟩ := Option.map_eq_some_iff.mp hs
    exact ⟨_, _, .calls hpc ha .forget rfl, rfl⟩
  | publishing origin p st => rw [hpc] at hs; exact publishMessage_turns hpc hs
  | acknowledging id => rw [hpc] at hs; cases hs; exact ⟨_, _, .sends hpc .pubAck, rfl⟩
  | awaiting channel reply =>
    rw [hpc] at hs
    obtain ⟨res, hres, rfl⟩ := Option.map_eq_some_iff.mp hs
    cases res with
    | ok u => exact Goes.turns hpc (.written hres)
    | error e => exact Goes.turns hpc .unwritten
  | ending clean =>
    rw [hpc] at hs
    cases hs
    split
    · rename_i w hw
      split
      · exact Goes.turns hpc .ended
      · rename_i hclean
        obtain rfl : clean = false := by simpa using hclean
        exact Goes.turns hpc (.will hw)
    · exact Goes.turns hpc .ended
  | deferred =>
    rw [hpc] at hs
    dsimp only at hs
    repeat' split at hs
    all_goals cases hs
    · exact Goes.turns hpc (.unowned ‹_›)
    · exact ⟨_, _, .beginClosing hpc ‹_›, rfl⟩
  | closingClient => rw [hpc] at hs; cases hs; exact ⟨_, _, .closeClient hpc, rfl⟩
  | joining =>
    rw [hpc] at hs
    dsimp only at hs
    split at hs <;> cases hs
    · exact Goes.turns hpc (.joined (.inl ‹_›))
    · exact Goes.turns hpc (.joined (.inr ‹_›))
  | waitingWriter =>
    rw [hpc] at hs
    dsimp only at hs
    split at hs <;> cases hs
    exact Goes.turns hpc (.drained ‹_›)
  | closingSession =>
    rw [hpc] at hs
    dsimp only at hs
    split at hs
    · cases hs
      exact Goes.turns hpc (.finished ‹_›)
    · rename_i ha
      obtain ⟨a, ha⟩ := Option.ne_none_iff_exists'.mp ha
      split at hs <;> cases hs
      exact closeSession_turns h ‹_› hpc ha
  | finished => rw [hpc] at hs; cases hs

/-- **What a consumer can do.** -/
theorem consumerStep_turns (hs : s.consumerStep c i = some s') :
    ∃ e f, ConsumerTurn s c e f ∧ s' = (e.apply c s).setConn c f := by
  unfold consumerStep at hs
  dsimp only at hs
  cases hk : (s.conns c).consumer with
  | absent => rw [hk] at hs; cases hs
  | polling epoch =>
    rw [hk] at hs
    cases hs
    split
    · exact ⟨_, _, .leave (.inl hk), rfl⟩
    · exact ⟨_, _, .poll hk, rfl⟩
  | selecting epoch =>
    rw [hk] at hs
    obtain ⟨a, ha, hs⟩ := Option.bind_eq_some_iff.mp hs
    obtain ⟨⟨d, res⟩, hn, hs⟩ := Option.bind_eq_some_iff.mp hs
    cases hs
    exact ⟨_, _, .next hk ha hn, rfl⟩
  | delivering epoch d => rw [hk] at hs; cases hs; exact ⟨_, _, .send hk, setConn_congr rfl⟩
  | awaiting epoch channel =>
    rw [hk] at hs
    obtain ⟨res, -, rfl⟩ := Option.map_eq_some_iff.mp hs
    refine ⟨_, _, .sent hk ?_, rfl⟩
    cases res
    · exact .inr rfl
    · exact .inl rfl
  | failing => rw [hk] at hs; cases hs; exact ⟨_, _, .fail hk, setConn_congr rfl⟩
  | parked epoch =>
    rw [hk] at hs
    dsimp only at hs
    split at hs
    · cases hs
      exact ⟨_, _, .leave (.inr hk), rfl⟩
    · obtain ⟨a, ha, hs⟩ := Option.bind_eq_some_iff.mp hs
      obtain ⟨st, hst, hs⟩ := Option.bind_eq_some_iff.mp hs
      cases hs
      exact ⟨_, _, .wake hk ha hst, rfl⟩
  | returned => rw [hk] at hs; cases hs

/-- **What the server can do.** -/
theorem step_moves {a : Action} (h : s.Refines cfg) (hs : s.step cfg a = some s') : Moves cfg s a s' := by
  cases a with
  | accept => cases hs; exact .accept
  | handler c i =>
    simp only [step] at hs
    split at hs
    · obtain ⟨e, f, ht, rfl⟩ := handlerStep_turns h hs
      exact .handler ‹_› ht
    · cases hs
  | consumer c i =>
    simp only [step] at hs
    split at hs
    · obtain ⟨e, f, ht, rfl⟩ := consumerStep_turns hs
      exact .consumer ‹_› ht
    · cases hs
  | write c n err =>
    simp only [step] at hs
    split at hs
    · obtain ⟨client, hw, rfl⟩ := Option.map_eq_some_iff.mp hs
      exact .write ‹_› hw
    · cases hs
  | writerExit c =>
    simp only [step] at hs
    split at hs
    · obtain ⟨client, hw, rfl⟩ := Option.map_eq_some_iff.mp hs
      exact .writerExit ‹_› hw
    · cases hs
  | sweep now order =>
    simp only [step] at hs
    split at hs
    · rename_i h
      cases hs
      exact .sweep h.2.1 h.2.2
    · cases hs

end Server

end OrbMQ
