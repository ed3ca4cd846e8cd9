import OrbMQ.Lib.Sys
import OrbMQ.Server.State

/-!
# The steps of the server (`internal/server/server.go`, `security.go`)

`step` is the atomic section that an action runs; `none` if it cannot run now: a lock is taken, a
channel is empty, or the goroutine is not there. The write sections of the registry wait until no
publisher holds the read lock (`Unread`).

The functions keep the names of the source. Where a function of the source has several sections, its
sections are the cases of `handlerStep` with the places of `Pc` between them.
-/

namespace OrbMQ

open Go

/-! ## Permissions (`security.go`) -/

/-- `authenticateConnect`; the context has ended at its last check if `fail`. -/
def authenticateConnect (cfg : Config) (i : Input) (connect : ConnectPacket) : Bytes × ConnAckReturnCode :=
  match cfg.auth with
  | none => ([], .accepted)
  | some auth =>
    let res := auth.authenticate cfg.crypto i.ended i.busy i.ended' (connect.username.getD [])
      (connect.password.getD [])
    if res = .error errBusy ∨ i.fail then ([], .serverUnavailable)
    else match res with
      | .error _ => ([], .badCredentials)
      | .ok identity =>
        if connect.username = none ∨ connect.password = none then ([], .badCredentials)
        else if !auth.canUseClientID identity connect.clientID ||
            connect.will.any (fun w => !auth.canPublish identity w.topic) then ([], .notAuthorized)
        else (identity, .accepted)

def canPublish (cfg : Config) (identity name : Bytes) : Bool :=
  cfg.auth.all fun auth => auth.canPublish identity name

def canSubscribe (cfg : Config) (identity filter : Bytes) : Bool :=
  cfg.auth.all fun auth => auth.canSubscribe identity filter

namespace Conn

/-- The first packet of a connection. -/
def handshake (cfg : Config) (i : Input) (k : Conn) : Conn :=
  if i.fail then { k with pc := .finished }
  else match decodeWithLimit cfg.maxPacketSize ⟨i.raw, none⟩ with
    | .ok (.connect connect) _ =>
      { k with connect, client := .new connect.clientID, pc := .authenticating }
    | _ => { k with pc := .finished }

/-- `sendPacket` up to the wait for its result. -/
def sendPacket (pkt : Packet) (reply : Reply) (k : Conn) : Conn :=
  match encode pkt [] with
  | .error _ _ => { k with pc := reply.failed }
  | .ok _ raw =>
    match k.client.send raw with
    | (.error _, client) => { k with client, pc := reply.failed }
    | (.ok channel, client) => { k with client, pc := .awaiting channel reply }

/-- The next packet of `serve`. -/
def serve (cfg : Config) (i : Input) (k : Conn) : Conn :=
  if i.fail then { k with pc := .ending false }
  else match decodeWithLimit cfg.maxPacketSize ⟨i.raw, none⟩ with
    | .ok pkt _ => { k with pc := .handling pkt }
    | .error _ _ => { k with pc := .ending false }

end Conn

namespace Server

/-! ## Sessions and their owners -/

def authenticate (cfg : Config) (c : Nat) (i : Input) (s : Server) : Server :=
  match authenticateConnect cfg i (s.conns c).connect with
  | (identity, .accepted) =>
    s.setConn c fun k =>
      { k with connect := { k.connect with username := none, password := none }, identity, pc := .acquiring }
  | (_, code) => s.goto c (.rejecting code)

/-- The counter of a refused connection, and the CONNACK. -/
def rejectConnection (c : Nat) (code : ConnAckReturnCode) (s : Server) : Server :=
  let s := if code = .notAuthorized then
      { s with authorizationRejections := s.authorizationRejections + 1 }
    else { s with authenticationRejections := s.authenticationRejections + 1 }
  s.setConn c (·.sendPacket (.connAck ⟨false, code⟩) .refusal)

/-- The session of a CONNECT, if it can be had, and whether it was there. -/
def openSession (connect : ConnectPacket) (identity : Bytes) (i : Input) (s : Server) :
    Except Err (Nat × Bool) × Server :=
  let id := connect.clientID
  let (expired, sessions) := s.sessions.expireSession id i.now
  let s := { s with sessions, broker := if expired then s.broker.unsubscribeAll id else s.broker }
  let s := if connect.cleanSession then
      { s with broker := s.broker.unsubscribeAll id, sessions := s.sessions.delete id } else s
  let (res, sessions) := s.sessions.getOrCreateOwned i.later id identity
  (res, { s with sessions })

/-- The subscriptions of a session, one after the other. -/
def restore (r : Nat) (s : Server) : Server :=
  let broker := (s.state r).snapshotSubscriptions.foldl
    (fun b sub => b.subscribe sub.1 sub.2 (s.state r).id r) s.broker
  { s with broker }

/-- One round of the loop of `acquireConnection`, under the lock. -/
def acquireConnection (c : Nat) (i : Input) (s : Server) : Server :=
  let k := s.conns c
  let id := k.client.id
  if i.fail then s.goto c .deferred
  else if (s.sessions.get id).any fun r => (s.state r).owner ≠ k.identity then
    s.goto c (.rejecting .notAuthorized)
  else match s.clients[id]? with
    | some previous =>
      (s.setConn previous fun k => { k with active := k.active.map (·.beginClosing i.now) }).goto c
        (.takingOver previous)
    | none =>
      match s.openSession k.connect k.identity i with
      | (.error e, s) => s.goto c (if e = errSessionOwner then .rejecting .notAuthorized else .deferred)
      | (.ok (r, present), s) =>
        let s := (s.setSession r ((s.state r).markConnected, s.sessions.totals)).restore r
        { s with clients := s.clients.insert id c }.setConn c fun k =>
          { k with
            active := some { session := r, cleanSession := k.connect.cleanSession }
            pc := .connack present }

/-- The end of an owner, under the lock. -/
def closeSession (c : Nat) (s : Server) : Server :=
  let k := s.conns c
  let id := k.client.id
  match k.active with
  | none => s
  | some owner =>
    let s := if s.clients[id]? = some c then
        let s := if owner.cleanSession then
            { s with sessions := s.sessions.delete id, broker := s.broker.unsubscribeAll id }
          else s.setSession owner.session
            ((s.state owner.session).markDisconnectedAt owner.disconnectedAt, s.sessions.totals)
        { s with clients := s.clients.erase id }
      else s
    s.setConn c fun k => { k with active := some { owner with done := true } }

/-- One round of the loop of `startSessionExpiry`. -/
def sweep (now : Time) (order : List Bytes) (s : Server) : Server :=
  let (ids, sessions) := s.sessions.expire now order
  { s with sessions, broker := ids.foldl (fun b id => b.unsubscribeAll id) s.broker }

/-! ## Packets -/

/-- `handlePacket`, up to the first section of the packet's handler. -/
def handlePacket (cfg : Config) (c : Nat) (owner : ActiveConnection) (pkt : Packet) (s : Server) : Server :=
  let state := s.state owner.session
  match pkt with
  | .pingReq => s.setConn c (·.sendPacket .pingResp .response)
  | .pubAck p => (s.setSession owner.session (state.ack p.packetID s.sessions.totals)).goto c .serving
  | .subscribe p =>
    (s.setSession owner.session (state.pauseDelivery, s.sessions.totals)).goto c
      (.subscribing p [] p.subscriptions)
  | .unsubscribe p => s.goto c (.unsubscribing p p.topics)
  | .publish p =>
    if canPublish cfg state.owner p.topic then s.goto c (.publishing .packet p .locking)
    else { s with authorizationRejections := s.authorizationRejections + 1 }.goto c (.ending false)
  | .disconnect => s.goto c (.ending true)
  | _ => s.goto c (.ending false)

/-- The first loop of `handleSubscribe`, up to the session's subscription; then the SUBACK. -/
def handleSubscribe (cfg : Config) (c : Nat) (owner : ActiveConnection) (p : SubscribePacket)
    (codes : Bytes) (rest : List SubscribeEntry) (s : Server) : Server :=
  let state := s.state owner.session
  match rest with
  | [] =>
    let entries := (p.subscriptions.map (·.topic)).zip codes
    s.setConn c (·.sendPacket (.subAck ⟨p.packetID, codes⟩) (.suback entries))
  | sub :: rest =>
    if !canSubscribe cfg state.owner sub.topic then
      { s with authorizationRejections := s.authorizationRejections + 1 }.goto c
        (.subscribing p (codes ++ [0x80]) rest)
    else
      let qos := if sub.qos > 1 then 1 else sub.qos
      let (res, changed) := state.setSubscription s.sessions.limits sub.topic qos s.sessions.totals
      (s.setSession owner.session changed).goto c (match res with
        | .error _ => .subscribing p (codes ++ [0x80]) rest
        | .ok _ => .routing p codes sub.topic qos rest)

/-- One retained message after a SUBACK; `next` is the place after it. -/
def offer (c : Nat) (owner : ActiveConnection) (i : Input) (retained : PublishPacket) (code : UInt8)
    (next : Pc) (s : Server) : Server :=
  let state := s.state owner.session
  let outbound := newOutboundPublish retained (deliveryQoS retained.qos code)
  if outbound.qos = 1 then
    match newPublishTemplate outbound with
    | .error _ => s.goto c (.resuming false)
    | .ok template =>
      let (res, changed) := state.admitMessage s.sessions.limits i.now template.raw
        template.packetIDOffset s.sessions.totals
      (s.setSession owner.session changed).goto c (match res with
        | .error _ => .resuming false
        | .ok _ => next)
  else
    match encodePublishPacket outbound with
    | .error _ => s.goto c (.resuming false)
    | .ok raw =>
      let (res, client) := (s.conns c).client.enqueue raw
      s.setConn c fun k => { k with client, pc := match res with
        | .error _ => .resuming false
        | .ok _ => next }

/-! ## Publications -/

/-- `deliverPublishToSubscriber`, up to the section that gives the subscriber its message. -/
def visit (c : Nat) (origin : Origin) (p : PublishPacket) (cache : PublishDeliveryCache)
    (err : Option Err) (sub : Subscription Nat) (subs : List (Subscription Nat)) (s : Server) : Server :=
  let skip := s.goto c (.publishing origin p (.visiting cache err subs))
  match s.sessions.get sub.clientID with
  | none => skip
  | some r =>
    if sub.subscriber ≠ r then skip
    else
      let qos := deliveryQoS p.qos sub.qos
      let outbound := newOutboundPublish p qos
      if qos = 0 then
        match s.clients[sub.clientID]? with
        | none => skip
        | some o =>
          if (s.conns o).active.all fun a => a.closing || !a.ready || a.session ≠ r then skip
          else match cache.qos0Payload outbound with
            | (.error e, cache) => s.goto c (.publishing origin p (.visiting cache (some e) subs))
            | (.ok raw, cache) => s.goto c (.publishing origin p (.delivering cache err (.enqueue o raw) subs))
      else match cache.qos1Template outbound with
        | (.error e, cache) => s.goto c (.publishing origin p (.visiting cache (some e) subs))
        | (.ok t, cache) => s.goto c (.publishing origin p (.delivering cache err (.admitMessage r t) subs))

/-- The message of one subscriber. -/
def deliver (c : Nat) (i : Input) (origin : Origin) (p : PublishPacket) (cache : PublishDeliveryCache)
    (err : Option Err) (target : Target) (subs : List (Subscription Nat)) (s : Server) : Server :=
  match target with
  | .enqueue o raw =>
    let (res, client) := (s.conns o).client.enqueue raw
    (s.setConn o ({ · with client })).goto c (.publishing origin p (match res with
      | .ok _ => .visiting cache err subs
      | .error _ => .delivering cache err (.close o) subs))
  | .close o =>
    (s.setConn o fun k => { k with client := k.client.close }).goto c
      (.publishing origin p (.visiting cache err subs))
  | .admitMessage r t =>
    let (res, changed) := (s.state r).admitMessage s.sessions.limits i.now t.raw t.packetIDOffset
      s.sessions.totals
    (s.setSession r changed).goto c (.publishing origin p (.visiting cache (match res with
      | .ok _ => err
      | .error e => some e) subs))

/-- Where the handler goes on after `publishMessage`. -/
def published (origin : Origin) (p : PublishPacket) (err : Option Err) : Pc :=
  match origin with
  | .will => .deferred
  | .packet =>
    if err.isSome then .ending false
    else if p.qos = 1 then .acknowledging p.packetID
    else .serving

/-- The sections of `publishMessage`. -/
def publishMessage (c : Nat) (i : Input) (origin : Origin) (p : PublishPacket) (stage : PublishStage)
    (s : Server) : Option Server :=
  match stage with
  | .locking => some (s.goto c (.publishing origin p .retaining))
  | .retaining =>
    if p.retain then
      match s.broker.updateRetained p with
      | (.error e, broker) => some ({ s with broker }.goto c (.publishing origin p (.returning (some e))))
      | (.ok _, broker) => some ({ s with broker }.goto c (.publishing origin p .matching))
    else some (s.goto c (.publishing origin p .matching))
  | .matching =>
    if s.broker.topics.Matches p.topic i.subs then
      some (s.goto c (.publishing origin p (.visiting {} none i.subs)))
    else none
  | .visiting _ err [] => some (s.goto c (.publishing origin p (.returning err)))
  | .visiting cache err (sub :: subs) => some (s.visit c origin p cache err sub subs)
  | .delivering cache err target subs => some (s.deliver c i origin p cache err target subs)
  | .returning err => some (s.goto c (published origin p err))

/-! ## Handlers -/

/-- The section that the handler of `c` runs next. -/
def handlerStep (cfg : Config) (c : Nat) (i : Input) (s : Server) : Option Server :=
  let k := s.conns c
  match k.pc with
  | .handshake => some (s.setConn c (·.handshake cfg i))
  | .authenticating => some (s.authenticate cfg c i)
  | .rejecting code => some (s.rejectConnection c code)
  | .acquiring => if s.Unread then some (s.acquireConnection c i) else none
  | .takingOver previous =>
    some ((s.setConn previous fun k => { k with client := k.client.close }).goto c (.waitingFor previous))
  | .waitingFor previous =>
    if i.fail then some (s.goto c .deferred)
    else if (s.conns previous).active.any (·.done) then some (s.goto c .acquiring)
    else none
  | .connack present =>
    if i.fail then some (s.goto c .deferred)
    else some (s.setConn c (·.sendPacket (.connAck ⟨present, .accepted⟩) .connack))
  | .readying =>
    if i.fail then some (s.goto c .deferred)
    else if s.Unread then
      some (s.setConn c fun k => { k with active := k.active.map ({ · with ready := true }), pc := .beginning })
    else none
  | .beginning => k.active.map fun owner =>
    let (epoch, state) := (s.state owner.session).beginDelivery
    (s.setSession owner.session (state, s.sessions.totals)).setConn c fun k =>
      { k with consumer := .polling epoch, pc := .serving }
  | .serving => some (s.setConn c (·.serve cfg i))
  | .handling pkt => k.active.map fun owner => s.handlePacket cfg c owner pkt
  | .subscribing p codes rest => k.active.map fun owner => s.handleSubscribe cfg c owner p codes rest
  | .routing p codes filter qos rest => k.active.map fun owner =>
    { s with broker := s.broker.subscribe filter qos (s.state owner.session).id owner.session }.goto c
      (.subscribing p (codes ++ [qos]) rest)
  | .replaying [] => some (s.goto c (.resuming true))
  | .replaying ((filter, code) :: entries) =>
    if code = 0x80 then some (s.goto c (.replaying entries))
    else if Map.Ranges s.broker.retained i.order then
      some (s.goto c (.offering (s.broker.retainedMatching filter i.order) code entries))
    else none
  | .offering [] _ entries => some (s.goto c (.replaying entries))
  | .offering (retained :: rest) code entries => k.active.map fun owner =>
    s.offer c owner i retained code (.offering rest code entries)
  | .resuming ok => k.active.map fun owner =>
    (s.setSession owner.session ((s.state owner.session).resumeDelivery, s.sessions.totals)).goto c
      (if ok then .serving else .ending false)
  | .unsubscribing p [] => some (s.setConn c (·.sendPacket (.unsubAck ⟨p.packetID⟩) .response))
  | .unsubscribing p (filter :: rest) => k.active.map fun _ =>
    { s with broker := s.broker.unsubscribe filter k.client.id }.goto c (.forgetting p filter rest)
  | .forgetting p filter rest => k.active.map fun owner =>
    (s.setSession owner.session ((s.state owner.session).deleteSubscription filter s.sessions.totals)).goto c
      (.unsubscribing p rest)
  | .publishing origin p stage => s.publishMessage c i origin p stage
  | .acknowledging packetID => some (s.setConn c (·.sendPacket (.pubAck ⟨packetID⟩) .response))
  | .awaiting channel reply =>
    (k.client.awaitSend channel).map fun res => s.goto c (match res with
      | .ok _ => reply.sent
      | .error _ => reply.failed)
  | .ending clean =>
    some (s.goto c (match k.connect.will with
      | some will => if clean then .deferred else .publishing .will (willPublish will) .locking
      | none => .deferred))
  | .deferred =>
    if k.active = none then some (s.goto c .closingClient)
    else if s.Unread then
      some (s.setConn c fun k =>
        { k with active := k.active.map (·.beginClosing i.now), pc := .closingClient })
    else none
  | .closingClient => some (s.setConn c fun k => { k with client := k.client.close, pc := .joining })
  | .joining => match k.consumer with
    | .absent | .returned => some (s.goto c .waitingWriter)
    | _ => none
  | .waitingWriter => if k.client.writeDone then some (s.goto c .closingSession) else none
  | .closingSession =>
    if k.active = none then some (s.goto c .finished)
    else if s.Unread then some ((s.closeSession c).goto c .finished)
    else none
  | .finished => none

/-- The section that the delivery consumer of `c` runs next. -/
def consumerStep (c : Nat) (i : Input) (s : Server) : Option Server :=
  let k := s.conns c
  match k.consumer with
  | .absent => none
  | .polling epoch =>
    some (s.setConn c ({ · with consumer := if i.fail ∨ k.client.done then .returned else .selecting epoch }))
  | .selecting epoch => do
    let owner ← k.active
    let (d, changed) ← (s.state owner.session).next s.sessions.limits epoch s.sessions.totals
    return (s.setSession owner.session changed).setConn c
      ({ · with consumer := match d with
        | some d => .delivering epoch d
        | none => .parked epoch })
  | .delivering epoch d =>
    let (res, client) := k.client.send d.data
    some (s.setConn c ({ · with
      client
      consumer := match res with
        | .ok channel => .awaiting epoch channel
        | .error _ => .failing }))
  | .awaiting epoch channel =>
    (k.client.awaitSend channel).map fun res => s.setConn c ({ · with
      consumer := match res with
        | .ok _ => .polling epoch
        | .error _ => .failing })
  | .failing => some (s.setConn c ({ · with client := k.client.close, consumer := .returned }))
  | .parked epoch =>
    -- Where several channels are ready, `select` takes any of them.
    if (i.fail ∨ k.client.done) ∧ !i.token then some (s.setConn c ({ · with consumer := .returned }))
    else do
      let owner ← k.active
      let state ← (s.state owner.session).receiveChanged
      return (s.setSession owner.session (state, s.sessions.totals)).setConn c
        ({ · with consumer := .polling epoch })
  | .returned => none

/-- An action of the server. -/
def step (cfg : Config) (s : Server) : Action → Option Server
  | .accept => some { s with accepted := s.accepted + 1 }
  | .handler c i => if c < s.accepted then s.handlerStep cfg c i else none
  | .consumer c i => if c < s.accepted then s.consumerStep c i else none
  | .write c n err =>
    if c < s.accepted then
      ((s.conns c).client.writeNext n err).map fun client => s.setConn c ({ · with client })
    else none
  | .writerExit c =>
    if c < s.accepted then
      (s.conns c).client.writerExit.map fun client => s.setConn c ({ · with client })
    else none
  | .sweep now order =>
    if s.sessions.limits.offlineTTL ≠ 0 ∧ s.Unread ∧ Map.Ranges s.sessions.data order then
      some (s.sweep now order)
    else none

/-- A server that runs with `cfg`, over a new broker and a new store. -/
def Reachable (cfg : Config) (s : Server) : Prop :=
  ∃ broker sessions retainedLimits limits acts, Broker.newWithLimits retainedLimits = .ok broker ∧
    Store.newWithLimits limits = .ok sessions ∧
    Sys.run (step cfg) { broker, sessions } acts = some s

end Server

end OrbMQ
