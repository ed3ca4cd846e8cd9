import OrbMQ.Server.Registry
import OrbMQ.Server.Step
import OrbMQ.Session.Account

/-!
# The server keeps its sessions, routes and owners consistent

`Server.registry` is what the abstract model of `OrbMQ/Server/Registry.lean` sees of a server. Every
step of the server is some steps of the model, or none (`Refines.step`), whatever the goroutines of
the connections do in between. So its invariant holds in every reachable state (`ownership`).

Beside the registry, `Refines` has what a handler knows by where it is (`Conn.Ok`).
-/

namespace OrbMQ

open Go
open Function (update)

/-! ## What the model sees -/

/-- The filter of a subscribe or unsubscribe between its two updates. -/
def Pc.pending : Pc → Option (Bytes × Option UInt8)
  | .routing _ _ filter qos _ => some (filter, some qos)
  | .forgetting _ filter _ => some (filter, none)
  | _ => none

/-- The session of an owner that has not been closed. -/
def Conn.owned (k : Conn) : Option Nat := k.active.bind fun a => if a.done then none else some a.session

def Conn.holder (k : Conn) : Holder := ⟨k.client.id, k.identity, k.owned, k.pc.pending⟩

def Server.registry (s : Server) : Registry where
  stored id := s.sessions.data[id]?
  owner r := (s.state r).owner
  connected r := (s.state r).connected
  subs r f := (s.state r).subscriptions[f]?
  routes := s.broker.topics.lookup
  clients id := s.clients[id]?
  holders c := (s.conns c).holder

/-- What is known of a subscription when it is made. -/
structure Granted (cfg : Config) (owner f : Bytes) (q : UInt8) : Prop where
  filter : IsTopicFilter f
  qos : q ≤ 1
  allowed : canSubscribe cfg owner f = true

/-! ## Where a handler is -/

/-- Before the handler owns a session. -/
def Pc.early : Pc → Bool
  | .handshake | .authenticating | .acquiring | .takingOver _ | .waitingFor _ => true
  | _ => false

/-- What the decoder has checked of the packet at hand. A session that gets a message is one of the
`n` that were created. -/
def Pc.Checked (n : Nat) : Pc → Prop
  | .handling pkt => Accepted pkt
  | .subscribing _ _ rest => ∀ sub ∈ rest, IsTopicFilter sub.topic
  | .routing _ _ _ _ rest => ∀ sub ∈ rest, IsTopicFilter sub.topic
  | .publishing _ p (.delivering _ _ (.admitMessage r _) _) => Publishable p ∧ r < n
  | .publishing _ p _ => Publishable p
  | _ => True

/-- A session is about to get the message. -/
def PublishStage.admitting : PublishStage → Bool
  | .delivering _ _ (.admitMessage ..) _ => true
  | _ => false

theorem Pc.Checked.publishable {n : Nat} {origin : Origin} {p : PublishPacket} {stage : PublishStage}
    (h : (Pc.publishing origin p stage).Checked n) : Publishable p := by
  unfold Pc.Checked at h
  split at h <;> grind

theorem Pc.Checked.mono {n n' : Nat} (hn : n ≤ n') {pc : Pc} (h : pc.Checked n) : pc.Checked n' := by
  unfold Pc.Checked at h ⊢
  split at h <;> grind

structure Conn.Ok (n : Nat) (k : Conn) : Prop where
  named : k.connect.clientID = k.client.id
  will : ∀ w, k.connect.will = some w → Publishable (willPublish w)
  early : k.pc.early = true → k.active = none
  done : ∀ a, k.active = some a → a.done = true → k.pc = .finished
  session : ∀ a, k.active = some a → a.session < n
  checked : k.pc.Checked n

namespace Conn

variable {k k' : Conn} {n : Nat}

theorem ok_default : ({} : Conn).Ok n := ⟨rfl, nofun, fun _ => rfl, nofun, nofun, trivial⟩

theorem Ok.mono {n' : Nat} (hn : n ≤ n') (h : k.Ok n) : k.Ok n' :=
  ⟨h.named, h.will, h.early, h.done, fun a ha => Nat.lt_of_lt_of_le (h.session a ha) hn, h.checked.mono hn⟩

/-- The handler goes on at another place. -/
theorem Ok.goto (h : k.Ok n) {pc : Pc} (hf : k.pc ≠ .finished) (he : pc.early = true → k.pc.early = true)
    (hc : pc.Checked n) : ({ k with pc } : Conn).Ok n :=
  ⟨h.named, h.will, fun e => h.early (he e), fun a ha hd => absurd (h.done a ha hd) hf, h.session, hc⟩

theorem Ok.owned (h : k.Ok n) (hf : k.pc ≠ .finished) {a : ActiveConnection} (ha : k.active = some a) :
    k.owned = some a.session := by
  have hd : a.done = false := Bool.eq_false_iff.mpr fun hd => hf (h.done a ha hd)
  simp [Conn.owned, ha, hd]

/-- Another client value with the same ID. -/
theorem Ok.client (h : k.Ok n) {client : Client} (hid : client.id = k.client.id) :
    ({ k with client } : Conn).Ok n :=
  ⟨h.named.trans hid.symm, h.will, h.early, h.done, h.session, h.checked⟩

theorem Ok.consumer (h : k.Ok n) (consumer : Consumer) : ({ k with consumer } : Conn).Ok n :=
  ⟨h.named, h.will, h.early, h.done, h.session, h.checked⟩

/-- Flags of the owner that are set under the lock. -/
theorem Ok.flag (h : k.Ok n) {f : ActiveConnection → ActiveConnection}
    (hf : ∀ a, (f a).done = a.done ∧ (f a).session = a.session) :
    ({ k with active := k.active.map f } : Conn).Ok n := by
  refine ⟨h.named, h.will, fun e => ?_, fun a ha hda => ?_, fun a ha => ?_, h.checked⟩
  · show k.active.map f = none
    rw [h.early e]
    rfl
  · obtain ⟨a', ha', rfl⟩ := Option.map_eq_some_iff.mp ha
    exact h.done a' ha' ((hf a').1.symm.trans hda)
  · obtain ⟨a', ha', rfl⟩ := Option.map_eq_some_iff.mp ha
    exact (hf a').2 ▸ h.session a' ha'

theorem holder_goto {pc : Pc} (h : k.pc.pending = none) (h' : pc.pending = none) :
    ({ k with pc } : Conn).holder = k.holder := by
  simp only [Conn.holder, h, h']
  rfl

theorem holder_flag {f : ActiveConnection → ActiveConnection}
    (hf : ∀ a, (f a).done = a.done ∧ (f a).session = a.session) :
    ({ k with active := k.active.map f } : Conn).holder = k.holder := by
  have : ({ k with active := k.active.map f } : Conn).owned = k.owned := by
    simp only [Conn.owned, Option.bind_map]
    congr 1
    funext a
    simp only [Function.comp_apply, (hf a).1, (hf a).2]
  simp only [Conn.holder, this]

theorem beginClosing_keeps (now : Time) (a : ActiveConnection) :
    (a.beginClosing now).done = a.done ∧ (a.beginClosing now).session = a.session := by
  unfold ActiveConnection.beginClosing
  split <;> exact ⟨rfl, rfl⟩

end Conn

/-- The places after a packet was sent, or not. -/
theorem Reply.places (reply : Reply) (n : Nat) : ∀ pc, pc = reply.sent ∨ pc = reply.failed →
    pc.pending = none ∧ pc.early = false ∧ pc.Checked n := by
  rintro pc (rfl | rfl) <;> cases reply <;> exact ⟨rfl, rfl, trivial⟩

/-- Sending a packet changes the client's queue and the place. -/
theorem Conn.sendPacket_cases (k : Conn) (pkt : Packet) (reply : Reply) :
    ∃ client pc, k.sendPacket pkt reply = { k with client, pc } ∧ client.id = k.client.id ∧
      pc.pending = none ∧ pc.early = false ∧ ∀ n, pc.Checked n := by
  have hfail := fun n => reply.places n reply.failed (.inr rfl)
  unfold Conn.sendPacket
  split
  · exact ⟨k.client, reply.failed, rfl, rfl, (hfail 0).1, (hfail 0).2.1, fun n => (hfail n).2.2⟩
  · split
    · rename_i hs
      exact ⟨_, _, rfl, (Client.send_cases hs).1, (hfail 0).1, (hfail 0).2.1, fun n => (hfail n).2.2⟩
    · rename_i hs
      exact ⟨_, _, rfl, (Client.send_cases hs).1, rfl, rfl, fun _ => trivial⟩

/-- The first packet is a CONNECT that the decoder accepts, or the connection is over. -/
theorem Conn.handshake_cases (cfg : Config) (i : Input) (k : Conn) :
    k.handshake cfg i = { k with pc := .finished } ∨ ∃ connect, Accepted (.connect connect) ∧
      k.handshake cfg i = { k with connect, client := .new connect.clientID, pc := .authenticating } := by
  unfold Conn.handshake
  split
  · exact .inl rfl
  · split
    · rename_i hd
      exact .inr ⟨_, decodeWithLimit_accepted hd, rfl⟩
    · exact .inl rfl

theorem Conn.serve_cases (cfg : Config) (i : Input) (k : Conn) :
    k.serve cfg i = { k with pc := .ending false } ∨ ∃ pkt, Accepted pkt ∧
      k.serve cfg i = { k with pc := .handling pkt } := by
  unfold Conn.serve
  split
  · exact .inl rfl
  · split
    · rename_i hd
      exact .inr ⟨_, decodeWithLimit_accepted hd, rfl⟩
    · exact .inl rfl

/-! ## The refinement, update by update -/

structure Server.Refines (cfg : Config) (s : Server) : Prop where
  store : s.sessions.Inv
  conns : ∀ c, (s.conns c).Ok s.sessions.allocated
  filters : s.broker.topics.Filters
  reached : Registry.Reached (Granted cfg) s.registry

namespace Server

variable {cfg : Config} {s : Server} {c : Nat} {k : Conn}

theorem registry_setConn (s : Server) (c : Nat) (f : Conn → Conn) :
    (s.setConn c f).registry =
      { s.registry with holders := update s.registry.holders c (f (s.conns c)).holder } := by
  have : (fun c' => ((s.setConn c f).conns c').holder) =
      update (fun c' => (s.conns c').holder) c (f (s.conns c)).holder := by
    funext c'
    simp only [setConn, Function.update_apply]
    split <;> rfl
  simp only [registry, ← this]
  rfl

theorem conns_setConn (s : Server) (c c' : Nat) (f : Conn → Conn) :
    (s.setConn c f).conns c' = if c' = c then f (s.conns c) else s.conns c' := by
  simp only [setConn, Function.update_apply]

theorem setConn_congr {f g : Conn → Conn} (e : f (s.conns c) = g (s.conns c)) :
    s.setConn c f = s.setConn c g := by
  simp only [setConn, e]

theorem registry_goto (s : Server) (c : Nat) (pc : Pc) :
    (s.goto c pc).registry = s.registry.setPending c pc.pending := registry_setConn s c _

theorem ok_setConn {n : Nat} {f : Conn → Conn} (h : ∀ c, (s.conns c).Ok n) (hok : (f (s.conns c)).Ok n)
    (c' : Nat) : ((s.setConn c f).conns c').Ok n := by
  rw [conns_setConn]
  split
  · exact hok
  · exact h c'

namespace Refines

/-- A connection changes, and the model takes a step or none. -/
theorem update (h : s.Refines cfg) {f : Conn → Conn} (hok : (f (s.conns c)).Ok s.sessions.allocated)
    (hr : Registry.Reached (Granted cfg)
      { s.registry with holders := update s.registry.holders c (f (s.conns c)).holder }) :
    (s.setConn c f).Refines cfg :=
  ⟨h.store, ok_setConn h.conns hok, h.filters, registry_setConn s c f ▸ hr⟩

/-- A connection changes, but nothing that the model sees. -/
theorem setConn (h : s.Refines cfg) {f : Conn → Conn} (hh : (f (s.conns c)).holder = (s.conns c).holder)
    (hok : (f (s.conns c)).Ok s.sessions.allocated) : (s.setConn c f).Refines cfg := by
  have e : Function.update s.registry.holders c (f (s.conns c)).holder = s.registry.holders := by
    rw [hh]
    exact Function.update_eq_self c _
  exact h.update hok (e.symm ▸ h.reached)

/-- A connection that owns nothing gets its client ID or its identity. -/
theorem name (h : s.Refines cfg) {f : Conn → Conn} (hok : (f (s.conns c)).Ok s.sessions.allocated)
    (ha : (s.conns c).active = none) (hp : (s.conns c).pc.pending = none)
    (ha' : (f (s.conns c)).active = none) (hp' : (f (s.conns c)).pc.pending = none) :
    (s.setConn c f).Refines cfg := by
  have howned : ∀ k : Conn, k.active = none → k.owned = none := fun k hk => by rw [Conn.owned, hk]; rfl
  refine h.update hok (h.reached.tail ?_)
  have e : (f (s.conns c)).holder =
      ⟨(f (s.conns c)).client.id, (f (s.conns c)).identity, none, none⟩ := by
    rw [Conn.holder, howned _ ha', hp']
  rw [e]
  exact .name c _ _ (howned _ ha) hp

theorem count (h : s.Refines cfg) (authenticationRejections authorizationRejections : UInt64) :
    { s with authenticationRejections, authorizationRejections }.Refines cfg :=
  ⟨h.store, h.conns, h.filters, h.reached⟩

theorem goto (h : s.Refines cfg) {pc₀ pc : Pc} (hpc : (s.conns c).pc = pc₀) (hp : pc₀.pending = none)
    (hf : pc₀ ≠ .finished) (hp' : pc.pending = none) (he : pc.early = true → pc₀.early = true)
    (hc : pc.Checked s.sessions.allocated) : (s.goto c pc).Refines cfg := by
  subst hpc
  exact h.setConn (Conn.holder_goto hp hp') ((h.conns c).goto hf he hc)

/-- The handler goes on with a client that has other contents. -/
theorem clientGoto (h : s.Refines cfg) {pc₀ pc : Pc} {client : Client} (hpc : (s.conns c).pc = pc₀)
    (hid : client.id = (s.conns c).client.id) (hp : pc₀.pending = none) (hf : pc₀ ≠ .finished)
    (hp' : pc.pending = none) (he : pc.early = false) (hc : pc.Checked s.sessions.allocated) :
    (s.setConn c ({ · with client, pc })).Refines cfg := by
  subst hpc
  refine h.setConn ?_ (((h.conns c).goto hf (by simp [he]) hc).client hid)
  simp only [Conn.holder, hid, hp, hp']
  rfl

theorem sendPacket (h : s.Refines cfg) {pkt : Packet} {reply : Reply} {pc₀ : Pc}
    (hpc : (s.conns c).pc = pc₀) (hp : pc₀.pending = none) (hf : pc₀ ≠ .finished) :
    (s.setConn c (·.sendPacket pkt reply)).Refines cfg := by
  obtain ⟨client, pc, e, hid, hpend, hearly, hcheck⟩ := (s.conns c).sendPacket_cases pkt reply
  rw [setConn_congr (g := ({ · with client, pc })) e]
  exact h.clientGoto hpc hid hp hf hpend hearly (hcheck _)

/-- A client gets other contents: a packet in its queue, or a mark that it is closed. -/
theorem client (h : s.Refines cfg) {f : Client → Client} (hid : ∀ cl, (f cl).id = cl.id) :
    (s.setConn c fun k => { k with client := f k.client }).Refines cfg := by
  refine h.setConn ?_ ((h.conns c).client (hid _))
  simp only [Conn.holder, hid]
  rfl

theorem flag (h : s.Refines cfg) {f : ActiveConnection → ActiveConnection}
    (hf : ∀ a, (f a).done = a.done ∧ (f a).session = a.session) :
    (s.setConn c fun k => { k with active := k.active.map f }).Refines cfg :=
  h.setConn (Conn.holder_flag hf) ((h.conns c).flag hf)

/-- Flags of the owner, on the way to another place. -/
theorem flagGoto (h : s.Refines cfg) {pc₀ pc : Pc} (hpc : (s.conns c).pc = pc₀)
    {f : ActiveConnection → ActiveConnection} (hfl : ∀ a, (f a).done = a.done ∧ (f a).session = a.session)
    (hp : pc₀.pending = none) (hf : pc₀ ≠ .finished) (hp' : pc.pending = none) (he : pc.early = false)
    (hc : pc.Checked s.sessions.allocated) :
    (s.setConn c fun k => { k with active := k.active.map f, pc }).Refines cfg := by
  subst hpc
  refine h.setConn ?_ (((h.conns c).goto hf (by simp [he]) hc).flag hfl)
  exact (Conn.holder_flag (k := { s.conns c with pc }) hfl).trans (Conn.holder_goto hp hp')

theorem consumer (h : s.Refines cfg) (consumer : Consumer) :
    (s.setConn c ({ · with consumer })).Refines cfg :=
  h.setConn rfl ((h.conns c).consumer consumer)

/-! ### Calls on a session -/

end Refines

end Server

/-- The calls of a session that the model does not see. -/
def StateOp.onQueue : StateOp → Bool
  | .setSubscription .. | .deleteSubscription .. | .markConnected | .markDisconnectedAt .. => false
  | _ => true

theorem StateOp.quiet {l : Limits} {st st' : State} {t t' : Snapshot} {op : StateOp}
    (hq : op.onQueue = true) (hop : op.run l st t = some (st', t')) :
    st'.owner = st.owner ∧ st'.connected = st.connected ∧ st'.subscriptions = st.subscriptions := by
  cases run_moves hop with
  | setSubscription | deleteSubscription | markConnected | markDisconnectedAt => cases hq
  | _ => exact ⟨rfl, rfl, rfl⟩

namespace Server

variable {cfg : Config} {s : Server} {c : Nat}

theorem registry_setSession (s : Server) (r : Nat) (res : State × Snapshot) :
    (s.setSession r res).registry =
      { s.registry with
        owner := update s.registry.owner r res.1.owner
        connected := update s.registry.connected r res.1.connected
        subs := fun r' f => if r' = r then res.1.subscriptions[f]? else s.registry.subs r' f } := by
  ext <;> simp only [registry, setSession, state, Store.set, Function.update_apply] <;> split <;> rfl

namespace Refines

/-- A call on a session that the model does not see. -/
theorem setSession (h : s.Refines cfg) {r : Nat} (hr : r < s.sessions.allocated) (op : StateOp)
    {st : State} {t : Snapshot}
    (hop : op.run s.sessions.limits (s.state r) s.sessions.totals = some (st, t))
    (hq : st.owner = (s.state r).owner ∧ st.connected = (s.state r).connected ∧
      st.subscriptions = (s.state r).subscriptions) : (s.setSession r (st, t)).Refines cfg := by
  refine ⟨h.store.set hr (op.settles (h.store.accounts r) h.store.within hop), h.conns, h.filters, ?_⟩
  have e : (s.setSession r (st, t)).registry = s.registry := by
    rw [registry_setSession, hq.1, hq.2.1, hq.2.2]
    ext <;> simp only [registry, Function.update_apply] <;> split <;> simp_all
  rw [e]
  exact h.reached

/-- A call on the queue of a session. -/
theorem call (h : s.Refines cfg) {r : Nat} (hr : r < s.sessions.allocated) (op : StateOp)
    (hq : op.onQueue = true) {res : State × Snapshot}
    (hop : op.run s.sessions.limits (s.state r) s.sessions.totals = some res) :
    (s.setSession r res).Refines cfg :=
  h.setSession hr op hop (StateOp.quiet hq hop)

/-! ### Owners -/

/-- What an owner has. -/
theorem owns (h : s.Refines cfg) {a : ActiveConnection} (hf : (s.conns c).pc ≠ .finished)
    (ha : (s.conns c).active = some a) :
    s.clients[(s.conns c).client.id]? = some c ∧ s.sessions.data[(s.conns c).client.id]? = some a.session ∧
      (s.state a.session).connected = true ∧ (s.state a.session).owner = (s.conns c).identity :=
  h.reached.inv.owned ((h.conns c).owned hf ha)

theorem session (h : s.Refines cfg) {a : ActiveConnection} (hf : (s.conns c).pc ≠ .finished)
    (ha : (s.conns c).active = some a) :
    a.session < s.sessions.allocated ∧ (s.state a.session).id = (s.conns c).client.id ∧
      (s.state a.session).deleted = false :=
  h.store.stored _ _ (h.owns hf ha).2.1

/-- A call of an owner on its queue, on the way to another place. -/
theorem callGoto (h : s.Refines cfg) {a : ActiveConnection} {pc₀ pc : Pc} (hpc : (s.conns c).pc = pc₀)
    (ha : (s.conns c).active = some a) (op : StateOp) (hq : op.onQueue = true) {res : State × Snapshot}
    (hop : op.run s.sessions.limits (s.state a.session) s.sessions.totals = some res)
    (hp : pc₀.pending = none) (hf : pc₀ ≠ .finished) (hp' : pc.pending = none)
    (he : pc.early = true → pc₀.early = true) (hc : pc.Checked s.sessions.allocated) :
    ((s.setSession a.session res).goto c pc).Refines cfg :=
  (h.call (h.session (hpc ▸ hf) ha).1 op hq hop).goto hpc hp hf hp' he hc

/-! ### Packets -/

theorem handshake (h : s.Refines cfg) (i : Input) (hpc : (s.conns c).pc = .handshake) :
    (s.setConn c (·.handshake cfg i)).Refines cfg := by
  have hnone : (s.conns c).active = none := (h.conns c).early (by rw [hpc]; rfl)
  obtain e | ⟨connect, hacc, e⟩ := (s.conns c).handshake_cases cfg i
  · refine h.setConn ?_ ?_ <;> rw [e]
    · exact Conn.holder_goto (hpc ▸ rfl) rfl
    · exact (h.conns c).goto (hpc ▸ nofun) nofun trivial
  · refine h.name ?_ hnone (hpc ▸ rfl) ?_ ?_ <;> rw [e]
    · exact ⟨rfl, fun w hw => hacc.will_publishable hw, fun _ => hnone, by simp [hnone], by simp [hnone], trivial⟩
    · exact hnone
    · rfl

theorem authenticate (h : s.Refines cfg) (i : Input) (hpc : (s.conns c).pc = .authenticating) :
    (s.authenticate cfg c i).Refines cfg := by
  have hok := h.conns c
  have hnone : (s.conns c).active = none := hok.early (by rw [hpc]; rfl)
  unfold Server.authenticate
  split
  · exact h.name ⟨hok.named, hok.will, fun _ => hnone, by simp [hnone], by simp [hnone], trivial⟩ hnone (hpc ▸ rfl) hnone rfl
  · exact h.goto hpc rfl nofun rfl nofun trivial

theorem rejectConnection (h : s.Refines cfg) {code : ConnAckReturnCode}
    (hpc : (s.conns c).pc = .rejecting code) : (s.rejectConnection c code).Refines cfg := by
  unfold Server.rejectConnection
  split
  · exact (h.count _ _).sendPacket hpc rfl nofun
  · exact (h.count _ _).sendPacket hpc rfl nofun

theorem serve (h : s.Refines cfg) (i : Input) (hpc : (s.conns c).pc = .serving) :
    (s.setConn c (·.serve cfg i)).Refines cfg := by
  obtain e | ⟨pkt, hacc, e⟩ := (s.conns c).serve_cases cfg i
  all_goals
    refine h.setConn ?_ ?_ <;> rw [e]
    · exact Conn.holder_goto (hpc ▸ rfl) rfl
    · exact (h.conns c).goto (hpc ▸ nofun) nofun (by first | exact hacc | trivial)

theorem handlePacket (h : s.Refines cfg) {a : ActiveConnection} {pkt : Packet}
    (hpc : (s.conns c).pc = .handling pkt) (ha : (s.conns c).active = some a) :
    (s.handlePacket cfg c a pkt).Refines cfg := by
  have hacc : Accepted pkt := by
    have := (h.conns c).checked
    rwa [hpc] at this
  unfold Server.handlePacket
  split
  · exact h.sendPacket hpc rfl nofun
  · exact h.callGoto hpc ha (.ack _) rfl rfl rfl nofun rfl nofun trivial
  · exact h.callGoto hpc ha .pauseDelivery rfl rfl rfl nofun rfl nofun hacc.subscribe
  · exact h.goto hpc rfl nofun rfl nofun trivial
  · dsimp only
    split
    · exact h.goto hpc rfl nofun rfl nofun hacc.publishable
    · exact (h.count _ _).goto hpc rfl nofun rfl nofun trivial
  · exact h.goto hpc rfl nofun rfl nofun trivial
  · exact h.goto hpc rfl nofun rfl nofun trivial

/-- The session update of a subscribe. -/
theorem subscribe (h : s.Refines cfg) {a : ActiveConnection} {pc₀ pc : Pc} (hpc : (s.conns c).pc = pc₀)
    (ha : (s.conns c).active = some a) (hp : pc₀.pending = none) (hf : pc₀ ≠ .finished) {f : Bytes} {q : UInt8}
    (hp' : pc.pending = some (f, some q)) (he : pc.early = false) (hc : pc.Checked s.sessions.allocated)
    (hg : Granted cfg (s.state a.session).owner f q) {t : Snapshot}
    (hset : (s.state a.session).setSubscription s.sessions.limits f q s.sessions.totals =
      (.ok (), { s.state a.session with subscriptions := (s.state a.session).subscriptions.insert f q }, t)) :
    ((s.setSession a.session
      ({ s.state a.session with subscriptions := (s.state a.session).subscriptions.insert f q }, t)).goto c
        pc).Refines cfg := by
  subst hpc
  have hop : (StateOp.setSubscription f q).run s.sessions.limits (s.state a.session) s.sessions.totals =
      some ({ s.state a.session with subscriptions := (s.state a.session).subscriptions.insert f q }, t) := by
    rw [StateOp.run, hset]
  refine ⟨h.store.set (h.session hf ha).1 (StateOp.settles (h.store.accounts _) h.store.within _ hop), ?_,
    h.filters, ?_⟩
  · exact ok_setConn h.conns ((h.conns c).goto hf (by simp [he]) hc)
  · have e : (s.setSession a.session ({ s.state a.session with
        subscriptions := (s.state a.session).subscriptions.insert f q }, t)).registry =
        s.registry.setSub a.session f (some q) := by
      rw [registry_setSession]
      ext <;> simp only [registry, Registry.setSub, Function.update_apply, Map.get_insert] <;> grind
    rw [registry_goto, e, hp']
    exact h.reached.tail (.subscribe c a.session f q ((h.conns c).owned hf ha) hp hg)

theorem handleSubscribe (h : s.Refines cfg) {a : ActiveConnection} {p : SubscribePacket} {codes : Bytes}
    {rest : List SubscribeEntry} (hpc : (s.conns c).pc = .subscribing p codes rest)
    (ha : (s.conns c).active = some a) : (s.handleSubscribe cfg c a p codes rest).Refines cfg := by
  have hfilters : ∀ sub ∈ rest, IsTopicFilter sub.topic := by
    have := (h.conns c).checked
    rwa [hpc] at this
  unfold Server.handleSubscribe
  split
  · exact h.sendPacket hpc rfl nofun
  · rename_i sub rest
    have hrest : ∀ sub ∈ rest, IsTopicFilter sub.topic := fun x hx => hfilters x (.tail _ hx)
    dsimp only
    split
    · exact (h.count _ _).goto hpc rfl nofun rfl nofun hrest
    · rename_i hallowed
      have hle : (if sub.qos > 1 then 1 else sub.qos) ≤ 1 := by
        split
        · exact UInt8.le_refl 1
        · exact UInt8.not_lt.mp ‹_›
      have hr := (h.session (hpc ▸ nofun) ha).1
      obtain ⟨e, t, hset⟩ | ⟨t, hset⟩ := (s.state a.session).setSubscription_cases s.sessions.limits sub.topic
        (if sub.qos > 1 then 1 else sub.qos) s.sessions.totals
      · rw [hset]
        refine (h.setSession hr (.setSubscription sub.topic (if sub.qos > 1 then 1 else sub.qos)) ?_
          ⟨rfl, rfl, rfl⟩).goto hpc rfl nofun rfl nofun hrest
        rw [StateOp.run, hset]
      · rw [hset]
        refine h.subscribe hpc ha rfl nofun rfl rfl ?_
          ⟨hfilters sub (.head _), hle, by simpa using hallowed⟩ hset
        exact hrest

/-- The broker update of a subscribe. -/
theorem routing (h : s.Refines cfg) {a : ActiveConnection} {p : SubscribePacket} {codes f : Bytes} {q : UInt8}
    {rest : List SubscribeEntry} (hpc : (s.conns c).pc = .routing p codes f q rest)
    (ha : (s.conns c).active = some a) :
    ({ s with broker := s.broker.subscribe f q (s.state a.session).id a.session }.goto c
      (.subscribing p (codes ++ [q]) rest)).Refines cfg := by
  have hfin : (s.conns c).pc ≠ .finished := hpc ▸ nofun
  have hrest : ∀ sub ∈ rest, IsTopicFilter sub.topic := by
    have := (h.conns c).checked
    rwa [hpc] at this
  have hown := (h.conns c).owned hfin ha
  have hpend : (s.registry.holders c).pending = some (f, some q) := by
    show (s.conns c).pc.pending = _
    rw [hpc]
    rfl
  have hfilter : IsTopicFilter f := (h.reached.inv.granted (h.reached.inv.subscribing hown hpend)).filter
  rw [(h.session hfin ha).2.1]
  refine ⟨h.store, ok_setConn h.conns ((h.conns c).goto hfin nofun hrest), ?_, ?_⟩
  · show (s.broker.subscribe f q _ a.session).topics.Filters
    rw [Broker.subscribe_topics]
    exact h.filters.subscribe hfilter _
  · rw [registry_goto]
    have e : Server.registry { s with broker := s.broker.subscribe f q (s.conns c).client.id a.session } =
        s.registry.setRoute f (s.conns c).client.id (some ⟨(s.conns c).client.id, a.session, q⟩) := by
      ext <;> simp only [registry, Registry.setRoute, Broker.subscribe_topics, Tree.lookup_subscribe] <;> rfl
    rw [e]
    exact h.reached.tail (.route c a.session f q hown hpend)

/-- The broker update of an unsubscribe. -/
theorem unsubscribing (h : s.Refines cfg) {a : ActiveConnection} {p : UnsubscribePacket} {f : Bytes}
    {rest : List Bytes} (hpc : (s.conns c).pc = .unsubscribing p (f :: rest))
    (ha : (s.conns c).active = some a) :
    ({ s with broker := s.broker.unsubscribe f (s.conns c).client.id }.goto c
      (.forgetting p f rest)).Refines cfg := by
  have hfin : (s.conns c).pc ≠ .finished := hpc ▸ nofun
  refine ⟨h.store, ok_setConn h.conns ((h.conns c).goto hfin nofun trivial), ?_, ?_⟩
  · show (s.broker.unsubscribe f _).topics.Filters
    rw [Broker.unsubscribe_topics]
    exact h.filters.unsubscribe f _
  · rw [registry_goto]
    have e : Server.registry { s with broker := s.broker.unsubscribe f (s.conns c).client.id } =
        s.registry.setRoute f (s.conns c).client.id none := by
      ext <;> simp only [registry, Registry.setRoute, Broker.unsubscribe_topics, Tree.lookup_unsubscribe] <;> rfl
    rw [e]
    refine h.reached.tail (.unroute c a.session f ((h.conns c).owned hfin ha) ?_)
    show (s.conns c).pc.pending = none
    rw [hpc]
    rfl

/-- The session update of an unsubscribe. -/
theorem forgetting (h : s.Refines cfg) {a : ActiveConnection} {p : UnsubscribePacket} {f : Bytes}
    {rest : List Bytes} (hpc : (s.conns c).pc = .forgetting p f rest) (ha : (s.conns c).active = some a) :
    ((s.setSession a.session ((s.state a.session).deleteSubscription f s.sessions.totals)).goto c
      (.unsubscribing p rest)).Refines cfg := by
  have hfin : (s.conns c).pc ≠ .finished := hpc ▸ nofun
  refine ⟨h.store.set (h.session hfin ha).1 (StateOp.settles (h.store.accounts _) h.store.within
    (.deleteSubscription f) rfl), ok_setConn h.conns ((h.conns c).goto hfin nofun trivial), h.filters, ?_⟩
  rw [registry_goto]
  have e : (s.setSession a.session ((s.state a.session).deleteSubscription f s.sessions.totals)).registry =
      s.registry.setSub a.session f none := by
    obtain ⟨subs, hsubs⟩ := (s.state a.session).deleteSubscription_state f s.sessions.totals
    have hget := fun f' => (s.state a.session).deleteSubscription_get f f' s.sessions.totals
    rw [registry_setSession]
    ext <;> simp only [registry, Registry.setSub, Function.update_apply] <;> grind
  rw [e]
  refine h.reached.tail (.forget c a.session f ((h.conns c).owned hfin ha) ?_)
  show (s.conns c).pc.pending = _
  rw [hpc]
  rfl

theorem offer (h : s.Refines cfg) {a : ActiveConnection} (i : Input) {m : PublishPacket} {code : UInt8}
    {pc₀ next : Pc} (hpc : (s.conns c).pc = pc₀) (ha : (s.conns c).active = some a) (hp : pc₀.pending = none)
    (hf : pc₀ ≠ .finished) (hp' : next.pending = none) (he : next.early = false)
    (hc : next.Checked s.sessions.allocated) : (s.offer c a i m code next).Refines cfg := by
  have hfail : (s.goto c (.resuming false)).Refines cfg := h.goto hpc hp hf rfl nofun trivial
  unfold Server.offer
  dsimp only
  split
  · split
    · exact hfail
    · rename_i template _
      have hcall := h.call (h.session (hpc ▸ hf) ha).1
        (.admitMessage i.now template.raw template.packetIDOffset) rfl rfl
      split
      · exact hcall.goto hpc hp hf rfl nofun trivial
      · exact hcall.goto hpc hp hf hp' (by simp [he]) hc
  · split
    · exact hfail
    · split
      · exact h.clientGoto hpc (Client.enqueue_id ..) hp hf rfl rfl trivial
      · exact h.clientGoto hpc (Client.enqueue_id ..) hp hf hp' he hc

/-! ### Publications -/

theorem pc_setConn (s : Server) (o : Nat) {f : Conn → Conn} (hf : ∀ k, (f k).pc = k.pc) :
    ((s.setConn o f).conns c).pc = (s.conns c).pc := by
  rw [conns_setConn]
  split
  · rename_i e
    rw [hf, e]
  · rfl

/-- The publisher goes on to a stage that does not admit a message. -/
theorem stage (h : s.Refines cfg) {origin : Origin} {p : PublishPacket} {st st' : PublishStage}
    (hpc : (s.conns c).pc = .publishing origin p st) (hst : st'.admitting = false) :
    (s.goto c (.publishing origin p st')).Refines cfg := by
  have hpub : Publishable p := by
    have := (h.conns c).checked
    rw [hpc] at this
    exact this.publishable
  refine h.goto hpc rfl nofun rfl nofun ?_
  unfold Pc.Checked
  split <;> simp_all [PublishStage.admitting]

theorem visit (h : s.Refines cfg) {origin : Origin} {p : PublishPacket} {cache : PublishDeliveryCache}
    {err : Option Err} {sub : Subscription Nat} {subs : List (Subscription Nat)}
    (hpc : (s.conns c).pc = .publishing origin p (.visiting cache err (sub :: subs))) :
    (s.visit c origin p cache err sub subs).Refines cfg := by
  have hpub : Publishable p := by
    have := (h.conns c).checked
    rw [hpc] at this
    exact this.publishable
  unfold Server.visit
  dsimp only
  split
  · exact h.stage hpc rfl
  · rename_i r hr
    have halloc : r < s.sessions.allocated := (h.store.stored _ r hr).1
    repeat' split
    all_goals first
      | exact h.stage hpc rfl
      | exact h.goto hpc rfl nofun rfl nofun ⟨hpub, halloc⟩

theorem deliver (h : s.Refines cfg) (i : Input) {origin : Origin} {p : PublishPacket}
    {cache : PublishDeliveryCache} {err : Option Err} {target : Target} {subs : List (Subscription Nat)}
    (hpc : (s.conns c).pc = .publishing origin p (.delivering cache err target subs)) :
    (s.deliver c i origin p cache err target subs).Refines cfg := by
  cases target with
  | enqueue o raw =>
    have hid := (s.conns o).client.enqueue_id raw
    have ho : (s.setConn o ({ · with client := ((s.conns o).client.enqueue raw).2 })).Refines cfg :=
      h.setConn (by simp only [Conn.holder, hid]; rfl) ((h.conns o).client hid)
    simp only [Server.deliver]
    split <;> exact ho.stage ((pc_setConn s o fun _ => by rfl).trans hpc) rfl
  | close o =>
    exact (h.client (f := Client.close) fun _ => rfl).stage ((pc_setConn s o fun _ => by rfl).trans hpc) rfl
  | admitMessage r t =>
    have hr : r < s.sessions.allocated := by
      have := (h.conns c).checked
      rw [hpc] at this
      exact this.2
    exact (h.call hr (.admitMessage i.now _ _) rfl rfl).stage hpc rfl

theorem publishMessage (h : s.Refines cfg) {s' : Server} {i : Input} {origin : Origin} {p : PublishPacket}
    {st : PublishStage} (hpc : (s.conns c).pc = .publishing origin p st)
    (hs : s.publishMessage c i origin p st = some s') : s'.Refines cfg := by
  cases st with
  | locking =>
    cases hs
    exact h.stage hpc rfl
  | retaining =>
    simp only [Server.publishMessage] at hs
    split at hs
    · rcases hu : s.broker.updateRetained p with ⟨res, broker⟩
      have ht := (Broker.updateRetained_cases hu).1
      have hb : Refines cfg { s with broker } := by
        refine ⟨h.store, h.conns, ?_, ?_⟩
        · show broker.topics.Filters
          exact ht ▸ h.filters
        · have e : Server.registry { s with broker } = s.registry := by
            simp only [registry, ht]
            rfl
          exact e ▸ h.reached
      rw [hu] at hs
      cases res <;>
      · cases hs
        exact hb.stage hpc rfl
    · cases hs
      exact h.stage hpc rfl
  | matching =>
    simp only [Server.publishMessage] at hs
    split at hs
    · cases hs
      exact h.stage hpc rfl
    · cases hs
  | visiting cache err subs =>
    cases subs with
    | nil =>
      cases hs
      exact h.stage hpc rfl
    | cons sub subs =>
      cases hs
      exact h.visit hpc
  | delivering cache err target subs =>
    cases hs
    exact h.deliver i hpc
  | returning err =>
    cases hs
    unfold published
    repeat' split
    all_goals exact h.goto hpc rfl nofun rfl nofun trivial

/-! ### Sessions that come and go -/

theorem registry_removed (s : Server) (id : Bytes) (totals : Snapshot) :
    Server.registry { s with
      sessions := { s.sessions.deleteLocked id with totals }
      broker := s.broker.unsubscribeAll id } = s.registry.remove id := by
  have hd := s.sessions.deleteLocked_data id
  have hs := s.sessions.deleteLocked_states id
  have ht := s.broker.topics.lookup_unsubscribeAll id
  have hempty : ∀ (st : State) (f : Bytes), st.remove.subscriptions[f]? = none := fun st f => by
    simp [State.remove]
  ext <;> simp only [registry, Registry.remove, Broker.unsubscribeAll_topics, state, Function.update_apply,
    hd, hs, ht]
  · grind
  · split <;> rfl
  · split <;> rfl
  · grind
  · grind

/-- A session without an owner is removed, with its routes. -/
theorem removed (h : s.Refines cfg) (id : Bytes) (hc : s.clients[id]? = none) {totals : Snapshot}
    (ht : totals.usage = (s.sessions.deleteLocked id).totals.usage) :
    Refines cfg { s with
      sessions := { s.sessions.deleteLocked id with totals }
      broker := s.broker.unsubscribeAll id } := by
  refine ⟨(h.store.deleteLocked id).count ht, ?_, ?_, ?_⟩
  · simpa using h.conns
  · show (s.broker.unsubscribeAll id).topics.Filters
    rw [Broker.unsubscribeAll_topics]
    exact h.filters.unsubscribeAll id
  · rw [registry_removed]
    exact h.reached.tail (.remove id hc)

/-- A session that expires has no owner. -/
theorem expireSession (h : s.Refines cfg) (id : Bytes) (now : Time) :
    Refines cfg { s with
      sessions := (s.sessions.expireSession id now).2
      broker := if (s.sessions.expireSession id now).1 then s.broker.unsubscribeAll id else s.broker } := by
  obtain e | ⟨r, hr, hoff, e⟩ := Store.expireSession_cases (fun r hr => (h.store.stored id r hr).2.1) now
  · rw [e]
    exact h
  · rw [e]
    refine h.removed id (Option.eq_none_iff_forall_ne_some.mpr fun c hc => ?_) rfl
    obtain ⟨hid, r', hr'⟩ := h.reached.inv.clients hc
    obtain ⟨-, hst, hcon, -⟩ := h.reached.inv.owned hr'
    rw [hid] at hst
    obtain rfl : r = r' := Option.some.inj (hr.symm.trans hst)
    exact absurd hcon (by simp [registry, state, hoff])

theorem expireLoop (h : s.Refines cfg) (now : Time) (order : List Bytes) :
    Refines cfg { s with
      sessions := (Store.expireLoop now order s.sessions).2
      broker := (Store.expireLoop now order s.sessions).1.foldl (fun b id => b.unsubscribeAll id) s.broker } := by
  induction order generalizing s with
  | nil => exact h
  | cons id order ih =>
    have hone := ih (h.expireSession id now)
    rcases he : s.sessions.expireLocked s.sessions.data[id]? now with ⟨expired, st⟩
    rw [Store.expireSession, he] at hone
    simp only [Store.expireLoop, he]
    cases expired <;> exact hone

theorem sweep (h : s.Refines cfg) (now : Time) (order : List Bytes) : (s.sweep now order).Refines cfg := by
  show Refines cfg { s with
    sessions := (s.sessions.expire now order).2
    broker := (s.sessions.expire now order).1.foldl (fun b id => b.unsubscribeAll id) s.broker }
  unfold Store.expire
  split
  · exact h
  · exact h.expireLoop now order

theorem registry_created (s : Server) (id owner : Bytes) (now : Time) :
    Server.registry { s with sessions := { s.sessions with
      states := Function.update s.sessions.states s.sessions.allocated (State.new id owner now)
      allocated := s.sessions.allocated + 1
      data := s.sessions.data.insert id s.sessions.allocated } } =
      s.registry.create id s.sessions.allocated owner := by
  have hnone : ∀ f : Bytes, (State.new id owner now).subscriptions[f]? = none := fun f => by simp [State.new]
  have howner : (State.new id owner now).owner = owner := rfl
  have hoff : (State.new id owner now).connected = false := rfl
  ext <;> simp only [registry, Registry.create, state, Map.get_insert, Function.update_apply] <;> grind

theorem getOrCreateOwned (h : s.Refines cfg) (now : Time) (id owner : Bytes) :
    Refines cfg { s with sessions := (s.sessions.getOrCreateOwned now id owner).2 } ∧
      ∀ r present, (s.sessions.getOrCreateOwned now id owner).1 = .ok (r, present) →
        (s.sessions.getOrCreateOwned now id owner).2.data[id]? = some r ∧
        ((s.sessions.getOrCreateOwned now id owner).2.states r).owner = owner := by
  have hstore := h.store.getOrCreateOwned now id owner
  unfold Store.getOrCreateOwned at hstore ⊢
  split
  · rename_i r hr
    split
    · exact ⟨h, nofun⟩
    · rename_i howner
      refine ⟨h, fun r' present he => ?_⟩
      cases he
      exact ⟨hr, not_not.mp howner⟩
  · rename_i hnew
    simp only [hnew] at hstore
    split
    · exact ⟨⟨h.store.count rfl, h.conns, h.filters, h.reached⟩, nofun⟩
    · rename_i hsize
      simp only [hsize, if_false] at hstore
      refine ⟨⟨hstore, fun c => (h.conns c).mono (Nat.le_succ _), h.filters, ?_⟩, fun r present he => ?_⟩
      · have hfresh : ∀ id' : Bytes, s.sessions.data[id']? ≠ some s.sessions.allocated :=
          fun id' hid' => (Nat.lt_irrefl _ (h.store.stored id' _ hid').1).elim
        rw [registry_created]
        exact h.reached.tail (.create id s.sessions.allocated owner hnew hfresh)
      · cases he
        simp [State.new]

/-- The session that a CONNECT opens. -/
theorem openSession (h : s.Refines cfg) {connect : ConnectPacket} {identity : Bytes} {i : Input}
    (hc : s.clients[connect.clientID]? = none) {res : Except Err (Nat × Bool)} {s' : Server}
    (ho : s.openSession connect identity i = (res, s')) :
    s'.Refines cfg ∧ s'.clients = s.clients ∧ s'.conns = s.conns ∧
      ∀ r present, res = .ok (r, present) →
        s'.sessions.data[connect.clientID]? = some r ∧ (s'.state r).owner = identity := by
  have h₁ := h.expireSession connect.clientID i.now
  unfold Server.openSession at ho
  rcases he : s.sessions.expireSession connect.clientID i.now with ⟨expired, st⟩
  rw [he] at h₁
  simp only [he] at ho
  split at ho
  · have h₂ := h₁.removed connect.clientID hc rfl
    have h₃ := h₂.getOrCreateOwned i.later connect.clientID identity
    cases ho
    exact ⟨h₃.1, rfl, rfl, h₃.2⟩
  · have h₃ := h₁.getOrCreateOwned i.later connect.clientID identity
    cases ho
    exact ⟨h₃.1, rfl, rfl, h₃.2⟩

/-- The subscriptions that `restore` routes. -/
theorem snapshotSubscriptions_spec (st : State) :
    (∀ f q, (f, q) ∈ st.snapshotSubscriptions ↔ st.subscriptions[f]? = some q) ∧
      st.snapshotSubscriptions.Pairwise fun a b => a.1 ≠ b.1 :=
  ⟨fun _ _ => Std.ExtTreeMap.mem_toList_iff_getElem?_eq_some,
    Std.ExtTreeMap.distinct_keys_toList.imp fun hab he => hab (Std.compare_eq_iff_eq.mpr he)⟩

/-- The server after `c` got the session `r`. -/
def acquired (c r : Nat) (clean present : Bool) (s : Server) : Server :=
  { (s.setSession r ((s.state r).markConnected, s.sessions.totals)).restore r with
    clients := s.clients.insert (s.conns c).client.id c }.setConn c fun k =>
      { k with active := some { session := r, cleanSession := clean }, pc := .connack present }

theorem registry_acquired {r : Nat} (hpc : (s.conns c).pc = .acquiring)
    (hid : (s.state r).id = (s.conns c).client.id) (hlive : (s.state r).deleted = false)
    (clean present : Bool) : (acquired c r clean present s).registry = s.registry.acquire c r := by
  have hstate : ∀ r', (acquired c r clean present s).state r' = if r' = r then
      { s.state r with connected := true, offlineSince := none } else s.state r' := fun r' => by
    show Function.update s.sessions.states r (s.state r).markConnected r' = _
    rw [State.markConnected_live hlive, Function.update_apply]
    rfl
  have hroutes : ∀ f c', (acquired c r clean present s).broker.topics.lookup f c' =
      if c' = (s.conns c).client.id then
        (((s.state r).subscriptions[f]?).map fun q => ⟨(s.conns c).client.id, r, q⟩).or
          (s.broker.topics.lookup f c')
      else s.broker.topics.lookup f c' := fun f c' => by
    have hr := hstate r
    rw [if_pos rfl] at hr
    have hb : (acquired c r clean present s).broker =
      ((acquired c r clean present s).state r).snapshotSubscriptions.foldl
        (fun b sub => b.subscribe sub.1 sub.2 ((acquired c r clean present s).state r).id r) s.broker := rfl
    rw [hb, hr, ← hid]
    exact Broker.lookup_subscribes (snapshotSubscriptions_spec _).2 ((snapshotSubscriptions_spec _).1 f) _ _ r c'
  have hholder : ∀ c', ((acquired c r clean present s).conns c').holder =
      Function.update s.registry.holders c { s.registry.holders c with owned := some r } c' := fun c' => by
    show (Function.update s.conns c _ c').holder = _
    rw [Function.update_apply, Function.update_apply]
    have hpend : (s.conns c).pc.pending = none := hpc ▸ rfl
    split
    · simp only [registry, Conn.holder, hpend]
      rfl
    · rfl
  refine Registry.ext rfl ?_ ?_ ?_ ?_ ?_ (funext hholder)
  · funext r'
    simp only [registry, Registry.acquire, hstate]
    split <;> simp_all
  · funext r'
    simp only [registry, Registry.acquire, hstate, Function.update_apply]
    split <;> rfl
  · funext r' f
    simp only [registry, Registry.acquire, hstate]
    split <;> simp_all
  · exact funext fun f => funext fun c' => hroutes f c'
  · funext id
    show (s.clients.insert (s.conns c).client.id c)[id]? = _
    rw [Map.get_insert]
    simp only [registry, Registry.acquire, Function.update_apply, Conn.holder, eq_comm]

/-- The connection becomes the owner, and the subscriptions of its session are routed again. -/
theorem acquire (h : s.Refines cfg) {r : Nat} (hpc : (s.conns c).pc = .acquiring)
    (hc : s.clients[(s.conns c).client.id]? = none)
    (hr : s.sessions.data[(s.conns c).client.id]? = some r)
    (howner : (s.state r).owner = (s.conns c).identity) (clean present : Bool) :
    (acquired c r clean present s).Refines cfg := by
  obtain ⟨halloc, hid, hlive⟩ := h.store.stored _ r hr
  have hnone : (s.conns c).active = none := (h.conns c).early (by rw [hpc]; rfl)
  refine ⟨h.store.set halloc (StateOp.settles (h.store.accounts r) h.store.within .markConnected rfl), ?_, ?_, ?_⟩
  · refine ok_setConn h.conns ⟨(h.conns c).named, (h.conns c).will, nofun, fun a ha hd => ?_, fun a ha => ?_, trivial⟩
    · cases ha
      cases hd
    · cases ha
      exact halloc
  · refine Broker.filters_subscribes (fun sub hsub => ?_) h.filters _ _
    have hget : (acquired c r clean present s).registry.subs r sub.1 = some sub.2 :=
      ((snapshotSubscriptions_spec _).1 sub.1 sub.2).mp hsub
    rw [registry_acquired hpc hid hlive] at hget
    exact (h.reached.inv.granted hget).filter
  · rw [registry_acquired hpc hid hlive]
    refine h.reached.tail (.acquire c r ?_ ?_ hc hr howner)
    · simp [registry, Conn.holder, Conn.owned, hnone]
    · simp [registry, Conn.holder, hpc, Pc.pending]

theorem acquireConnection (h : s.Refines cfg) (i : Input) (hpc : (s.conns c).pc = .acquiring) :
    (s.acquireConnection c i).Refines cfg := by
  have hnamed := (h.conns c).named
  unfold Server.acquireConnection
  dsimp only
  split
  · exact h.goto hpc rfl nofun rfl nofun trivial
  · split
    · exact h.goto hpc rfl nofun rfl nofun trivial
    · split
      · rename_i previous _
        exact (h.flag (Conn.beginClosing_keeps i.now)).goto
          ((pc_setConn s previous fun _ => by rfl).trans hpc) rfl nofun rfl (fun _ => rfl) trivial
      · rename_i hc
        rcases ho : s.openSession (s.conns c).connect (s.conns c).identity i with ⟨res, s₁⟩
        obtain ⟨h₁, hclients, hconns, hres⟩ := h.openSession (hnamed ▸ hc) ho
        have hpc₁ : (s₁.conns c).pc = .acquiring := by rw [hconns, hpc]
        cases res with
        | error e =>
          dsimp only
          split
          · exact h₁.goto hpc₁ rfl nofun rfl nofun trivial
          · exact h₁.goto hpc₁ rfl nofun rfl nofun trivial
        | ok x =>
          obtain ⟨r, present⟩ := x
          obtain ⟨hr, howner⟩ := hres r present rfl
          have hid : (s₁.conns c).client.id = (s.conns c).client.id := by rw [hconns]
          have hacq := h₁.acquire (r := r) hpc₁ (by rw [hclients, hid]; exact hc) (by rw [hid, ← hnamed]; exact hr)
            (by rw [howner, hconns]) (s₁.conns c).connect.cleanSession present
          rw [acquired, hid] at hacq
          exact hacq

/-- The server after `c` released its session. -/
def closed (c : Nat) (a : ActiveConnection) (s : Server) : Server :=
  ({ s with clients := s.clients.erase (s.conns c).client.id }.setConn c
    ({ · with active := some { a with done := true } })).goto c .finished

theorem registry_closed (s : Server) (c : Nat) (a : ActiveConnection) (hpend : (s.conns c).pc.pending = none) :
    (closed c a s).registry = s.registry.release c := by
  have hholder : ∀ c', ((closed c a s).conns c').holder =
      Function.update s.registry.holders c { s.registry.holders c with owned := none } c' := fun c' => by
    simp only [closed, Server.goto, conns_setConn, Function.update_apply]
    split
    · simp only [registry, Conn.holder, hpend, if_true]
      rfl
    · rfl
  refine Registry.ext rfl rfl rfl rfl rfl ?_ (funext hholder)
  funext id
  show (s.clients.erase (s.conns c).client.id)[id]? = _
  rw [Map.get_erase]
  simp only [registry, Registry.release, Function.update_apply, Conn.holder, eq_comm]

theorem ok_closed {n : Nat} (h : ∀ c, (s.conns c).Ok n) {a : ActiveConnection} (ha : a.session < n) (c' : Nat) :
    ((closed c a s).conns c').Ok n := by
  simp only [closed, Server.goto, conns_setConn]
  split
  · refine ⟨(h c).named, (h c).will, nofun, fun _ _ _ => rfl, fun b hb => ?_, trivial⟩
    cases hb
    exact ha
  · exact h c'

theorem closeSession (h : s.Refines cfg) (hpc : (s.conns c).pc = .closingSession) {a : ActiveConnection}
    (ha : (s.conns c).active = some a) : ((s.closeSession c).goto c .finished).Refines cfg := by
  have hfin : (s.conns c).pc ≠ .finished := hpc ▸ nofun
  obtain ⟨hreg, hst, hcon, -⟩ := h.owns hfin ha
  obtain ⟨halloc, hid, hlive⟩ := h.session hfin ha
  have hown := (h.conns c).owned hfin ha
  have hpend : (s.conns c).pc.pending = none := hpc ▸ rfl
  have e : (s.closeSession c).goto c .finished = closed c a (if a.cleanSession then
      { s with
        sessions := s.sessions.delete (s.conns c).client.id
        broker := s.broker.unsubscribeAll (s.conns c).client.id }
      else s.setSession a.session
        ((s.state a.session).markDisconnectedAt a.disconnectedAt, s.sessions.totals)) := by
    simp only [Server.closeSession, ha, hreg, if_true]
    by_cases hclean : a.cleanSession = true
    · simp only [if_pos hclean]
      rfl
    · simp only [if_neg hclean]
      rfl
  rw [e]
  by_cases hclean : a.cleanSession = true
  · rw [if_pos hclean]
    refine ⟨h.store.deleteLocked _, ok_closed (fun c' => ?_) ?_, ?_, ?_⟩
    · exact (s.sessions.deleteLocked_allocated _).symm ▸ h.conns c'
    · exact (s.sessions.deleteLocked_allocated _).symm ▸ halloc
    · show (s.broker.unsubscribeAll _).topics.Filters
      rw [Broker.unsubscribeAll_topics]
      exact h.filters.unsubscribeAll _
    · have hr : Server.registry { s with
          sessions := s.sessions.delete (s.conns c).client.id
          broker := s.broker.unsubscribeAll (s.conns c).client.id } =
          s.registry.remove (s.conns c).client.id := registry_removed s _ _
      rw [registry_closed _ c a (by exact hpend), hr]
      exact h.reached.tail (.close c a.session hown hpend)
  · rw [if_neg hclean]
    have hoff : (s.setSession a.session
        ((s.state a.session).markDisconnectedAt a.disconnectedAt, s.sessions.totals)).registry =
        { s.registry with connected := Function.update s.registry.connected a.session false } := by
      rw [registry_setSession, State.markDisconnectedAt_live hlive hcon]
      ext <;> simp only [registry, Function.update_apply] <;> grind
    refine ⟨h.store.set halloc (StateOp.settles (h.store.accounts _) h.store.within
      (.markDisconnectedAt a.disconnectedAt) rfl), ok_closed h.conns halloc, h.filters, ?_⟩
    rw [registry_closed _ c a (by exact hpend), hoff]
    exact h.reached.tail (.disconnect c a.session hown hpend)

/-! ### Every step -/

theorem handlerStep (h : s.Refines cfg) {s' : Server} {i : Input} (hs : s.handlerStep cfg c i = some s') :
    s'.Refines cfg := by
  unfold Server.handlerStep at hs
  dsimp only at hs
  cases hpc : (s.conns c).pc with
  | handshake => rw [hpc] at hs; cases hs; exact h.handshake i hpc
  | authenticating => rw [hpc] at hs; cases hs; exact h.authenticate i hpc
  | rejecting code => rw [hpc] at hs; cases hs; exact h.rejectConnection hpc
  | acquiring =>
    rw [hpc] at hs
    dsimp only at hs
    split at hs
    · cases hs; exact h.acquireConnection i hpc
    · cases hs
  | takingOver previous =>
    rw [hpc] at hs
    cases hs
    exact (h.client (f := Client.close) fun _ => rfl).goto ((pc_setConn s previous fun _ => by rfl).trans hpc)
      rfl (by rintro ⟨⟩) rfl (fun _ => rfl) trivial
  | waitingFor previous =>
    rw [hpc] at hs
    dsimp only at hs
    repeat' split at hs
    all_goals cases hs
    · exact h.goto hpc rfl (by rintro ⟨⟩) rfl (by rintro ⟨⟩) trivial
    · exact h.goto hpc rfl (by rintro ⟨⟩) rfl (fun _ => rfl) trivial
  | connack present =>
    rw [hpc] at hs
    dsimp only at hs
    split at hs <;> cases hs
    · exact h.goto hpc rfl (by rintro ⟨⟩) rfl (by rintro ⟨⟩) trivial
    · exact h.sendPacket hpc rfl (by rintro ⟨⟩)
  | readying =>
    rw [hpc] at hs
    dsimp only at hs
    repeat' split at hs
    all_goals cases hs
    · exact h.goto hpc rfl (by rintro ⟨⟩) rfl (by rintro ⟨⟩) trivial
    · exact h.flagGoto hpc (fun _ => ⟨rfl, rfl⟩) rfl (by rintro ⟨⟩) rfl rfl trivial
  | beginning =>
    rw [hpc] at hs
    obtain ⟨a, ha, rfl⟩ := Option.map_eq_some_iff.mp hs
    have hcall := h.call (h.session (hpc ▸ (by rintro ⟨⟩)) ha).1 .beginDelivery rfl rfl
    have hok : ({ s.conns c with pc := .serving } : Conn).Ok s.sessions.allocated :=
      (h.conns c).goto (hpc ▸ (by rintro ⟨⟩)) (by rintro ⟨⟩) trivial
    exact hcall.setConn (Conn.holder_goto (hpc ▸ rfl) rfl) (hok.consumer _)
  | serving => rw [hpc] at hs; cases hs; exact h.serve i hpc
  | handling pkt =>
    rw [hpc] at hs
    obtain ⟨a, ha, rfl⟩ := Option.map_eq_some_iff.mp hs
    exact h.handlePacket hpc ha
  | subscribing p codes rest =>
    rw [hpc] at hs
    obtain ⟨a, ha, rfl⟩ := Option.map_eq_some_iff.mp hs
    exact h.handleSubscribe hpc ha
  | routing p codes f q rest =>
    rw [hpc] at hs
    obtain ⟨a, ha, rfl⟩ := Option.map_eq_some_iff.mp hs
    exact h.routing hpc ha
  | replaying entries =>
    rw [hpc] at hs
    cases entries with
    | nil => cases hs; exact h.goto hpc rfl (by rintro ⟨⟩) rfl (by rintro ⟨⟩) trivial
    | cons e entries =>
      dsimp only at hs
      repeat' split at hs
      all_goals cases hs
      · exact h.goto hpc rfl (by rintro ⟨⟩) rfl (by rintro ⟨⟩) trivial
      · exact h.goto hpc rfl (by rintro ⟨⟩) rfl (by rintro ⟨⟩) trivial
  | offering retained code entries =>
    rw [hpc] at hs
    cases retained with
    | nil => cases hs; exact h.goto hpc rfl (by rintro ⟨⟩) rfl (by rintro ⟨⟩) trivial
    | cons m rest =>
      obtain ⟨a, ha, rfl⟩ := Option.map_eq_some_iff.mp hs
      exact h.offer i hpc ha rfl (by rintro ⟨⟩) rfl rfl trivial
  | resuming ok =>
    rw [hpc] at hs
    obtain ⟨a, ha, rfl⟩ := Option.map_eq_some_iff.mp hs
    split <;> exact h.callGoto hpc ha .resumeDelivery rfl rfl rfl (by rintro ⟨⟩) rfl (by rintro ⟨⟩) trivial
  | unsubscribing p rest =>
    rw [hpc] at hs
    cases rest with
    | nil => cases hs; exact h.sendPacket hpc rfl (by rintro ⟨⟩)
    | cons f rest =>
      obtain ⟨a, ha, rfl⟩ := Option.map_eq_some_iff.mp hs
      exact h.unsubscribing hpc ha
  | forgetting p f rest =>
    rw [hpc] at hs
    obtain ⟨a, ha, rfl⟩ := Option.map_eq_some_iff.mp hs
    exact h.forgetting hpc ha
  | publishing origin p st => rw [hpc] at hs; exact h.publishMessage hpc hs
  | acknowledging id => rw [hpc] at hs; cases hs; exact h.sendPacket hpc rfl (by rintro ⟨⟩)
  | awaiting channel reply =>
    rw [hpc] at hs
    obtain ⟨res, -, rfl⟩ := Option.map_eq_some_iff.mp hs
    obtain ⟨hp₁, he₁, hc₁⟩ := reply.places s.sessions.allocated reply.sent (.inl rfl)
    obtain ⟨hp₂, he₂, hc₂⟩ := reply.places s.sessions.allocated reply.failed (.inr rfl)
    split
    · exact h.goto hpc rfl (by rintro ⟨⟩) hp₁ (by simp [he₁]) hc₁
    · exact h.goto hpc rfl (by rintro ⟨⟩) hp₂ (by simp [he₂]) hc₂
  | ending clean =>
    rw [hpc] at hs
    cases hs
    split
    · rename_i w hw
      split
      · exact h.goto hpc rfl (by rintro ⟨⟩) rfl (by rintro ⟨⟩) trivial
      · exact h.goto hpc rfl (by rintro ⟨⟩) rfl (by rintro ⟨⟩) ((h.conns c).will w hw)
    · exact h.goto hpc rfl (by rintro ⟨⟩) rfl (by rintro ⟨⟩) trivial
  | deferred =>
    rw [hpc] at hs
    dsimp only at hs
    repeat' split at hs
    all_goals cases hs
    · exact h.goto hpc rfl (by rintro ⟨⟩) rfl (by rintro ⟨⟩) trivial
    · exact h.flagGoto hpc (Conn.beginClosing_keeps i.now) rfl (by rintro ⟨⟩) rfl rfl trivial
  | closingClient =>
    rw [hpc] at hs
    cases hs
    exact h.clientGoto hpc rfl rfl (by rintro ⟨⟩) rfl rfl trivial
  | joining =>
    rw [hpc] at hs
    dsimp only at hs
    split at hs <;> cases hs
    all_goals exact h.goto hpc rfl (by rintro ⟨⟩) rfl (by rintro ⟨⟩) trivial
  | waitingWriter =>
    rw [hpc] at hs
    dsimp only at hs
    split at hs <;> cases hs
    exact h.goto hpc rfl (by rintro ⟨⟩) rfl (by rintro ⟨⟩) trivial
  | closingSession =>
    rw [hpc] at hs
    dsimp only at hs
    split at hs
    · cases hs
      exact h.goto hpc rfl (by rintro ⟨⟩) rfl (by rintro ⟨⟩) trivial
    · rename_i ha
      obtain ⟨a, ha⟩ := Option.ne_none_iff_exists'.mp ha
      split at hs <;> cases hs
      exact h.closeSession hpc ha
  | finished => rw [hpc] at hs; cases hs

theorem consumerStep (h : s.Refines cfg) {s' : Server} {i : Input} (hs : s.consumerStep c i = some s') :
    s'.Refines cfg := by
  unfold Server.consumerStep at hs
  dsimp only at hs
  cases hk : (s.conns c).consumer with
  | absent => rw [hk] at hs; cases hs
  | polling epoch => rw [hk] at hs; cases hs; exact h.consumer _
  | selecting epoch =>
    rw [hk] at hs
    obtain ⟨a, ha, hs⟩ := Option.bind_eq_some_iff.mp hs
    obtain ⟨⟨d, res⟩, hn, hs⟩ := Option.bind_eq_some_iff.mp hs
    cases hs
    have hop : (StateOp.next epoch).run s.sessions.limits (s.state a.session) s.sessions.totals = some res := by
      rw [StateOp.run, hn]
      rfl
    exact (h.call ((h.conns c).session a ha) (.next epoch) rfl hop).consumer _
  | delivering epoch d =>
    rw [hk] at hs
    cases hs
    have hid := (s.conns c).client.send_id d.data
    exact h.setConn (by simp only [Conn.holder, hid]; rfl) (((h.conns c).client hid).consumer _)
  | awaiting epoch channel =>
    rw [hk] at hs
    obtain ⟨res, -, rfl⟩ := Option.map_eq_some_iff.mp hs
    exact h.consumer _
  | failing =>
    rw [hk] at hs
    cases hs
    exact h.setConn rfl (((h.conns c).consumer .returned).client rfl)
  | parked epoch =>
    rw [hk] at hs
    dsimp only at hs
    split at hs
    · cases hs
      exact h.consumer _
    · obtain ⟨a, ha, hs⟩ := Option.bind_eq_some_iff.mp hs
      obtain ⟨st, hst, hs⟩ := Option.bind_eq_some_iff.mp hs
      cases hs
      have hop : StateOp.changed.run s.sessions.limits (s.state a.session) s.sessions.totals =
          some (st, s.sessions.totals) := by
        rw [StateOp.run, hst]
        rfl
      exact (h.call ((h.conns c).session a ha) .changed rfl hop).consumer _
  | returned => rw [hk] at hs; cases hs

theorem step (h : s.Refines cfg) {s' : Server} {a : Action} (hs : s.step cfg a = some s') : s'.Refines cfg := by
  cases a with
  | accept =>
    cases hs
    exact ⟨h.store, h.conns, h.filters, h.reached⟩
  | handler c i =>
    simp only [Server.step] at hs
    split at hs
    · exact h.handlerStep hs
    · cases hs
  | consumer c i =>
    simp only [Server.step] at hs
    split at hs
    · exact h.consumerStep hs
    · cases hs
  | write c n err =>
    simp only [Server.step] at hs
    split at hs
    · obtain ⟨client, hw, rfl⟩ := Option.map_eq_some_iff.mp hs
      have hid := (Client.writeNext_keeps hw).1
      exact h.setConn (by simp only [Conn.holder, hid]; rfl) ((h.conns c).client hid)
    · cases hs
  | writerExit c =>
    simp only [Server.step] at hs
    split at hs
    · obtain ⟨client, hw, rfl⟩ := Option.map_eq_some_iff.mp hs
      have hid : client.id = (s.conns c).client.id := by
        unfold Client.writerExit at hw
        split at hw <;> cases hw
        rfl
      exact h.setConn (by simp only [Conn.holder, hid]; rfl) ((h.conns c).client hid)
    · cases hs
  | sweep now order =>
    simp only [Server.step] at hs
    split at hs
    · cases hs
      exact h.sweep now order
    · cases hs

theorem init {broker : Broker} {sessions : Store} {retainedLimits : RetainedLimits} {limits : Limits}
    (hb : Broker.newWithLimits retainedLimits = .ok broker) (hst : Store.newWithLimits limits = .ok sessions) :
    Refines cfg { broker, sessions } := by
  obtain ⟨hl, rfl⟩ := newWithLimits_ok hst
  obtain rfl : broker = { limits := retainedLimits } := by
    obtain ⟨-, -, h⟩ := except_bind_ok_iff.mp hb
    cases h
    rfl
  refine ⟨Store.inv_new hl, fun _ => Conn.ok_default, ?_, ?_⟩
  · intro path c sub hs
    simp [Tree.new] at hs
  · have e : Server.registry { broker := { limits := retainedLimits }, sessions := { limits } } = Registry.empty := by
      ext <;> simp [registry, Registry.empty, state, Conn.holder, Conn.owned, Pc.pending, Tree.lookup, Tree.new]
    rw [e]
    exact .refl

end Refines

/-- Every reachable server is refined by the model. -/
theorem Reachable.refines (h : Reachable cfg s) : s.Refines cfg := by
  obtain ⟨broker, sessions, retainedLimits, limits, acts, hb, hst, hrun⟩ := h
  exact Sys.run_invariant (Refines.init hb hst) (fun _ _ _ hi hs => hi.step hs) hrun

/-! ## Owners, sessions and routes -/

/-- The three structures of the server agree. -/
structure Consistent (s : Server) : Prop where
  /-- One connection of a client ID is between `acquireConnection` and `closeSession`. -/
  unique : ∀ c c' r r', (s.conns c).owned = some r → (s.conns c').owned = some r' →
    (s.conns c).client.id = (s.conns c').client.id → c = c'
  /-- A registered connection owns the stored session, which is connected and not removed. -/
  registered : ∀ (id : Bytes) (c : Nat), s.clients[id]? = some c → ∃ a, (s.conns c).active = some a ∧
    s.sessions.data[id]? = some a.session ∧ (s.state a.session).connected = true ∧
    (s.state a.session).deleted = false
  /-- The entries of a client in the tree are the subscriptions of its session, and carry it, while no
  connection of the client is between the two updates of a subscribe or unsubscribe. -/
  routed : ∀ id : Bytes, (∀ c, (s.conns c).client.id = id → (s.conns c).pc.pending = none) →
    ∀ path sub, s.broker.topics.root.get id path = some sub ↔ ∃ f r q, path = splitFilter f ∧
      s.sessions.data[id]? = some r ∧ (s.state r).subscriptions[f]? = some q ∧ sub = ⟨id, r, q⟩

theorem Refines.consistent (h : s.Refines cfg) : s.Consistent where
  unique c c' r r' hr hr' hid := (h.reached.inv.owner_unique hr hr' hid.symm).symm
  registered id c hc := by
    obtain ⟨hid, r, hr⟩ := h.reached.inv.clients hc
    obtain ⟨-, hst, hcon, -⟩ := h.reached.inv.owned hr
    obtain ⟨a, ha, hd⟩ := Option.bind_eq_some_iff.mp hr
    obtain rfl : a.session = r := by
      split at hd
      · cases hd
      · exact Option.some.inj hd
    rw [hid] at hst
    exact ⟨a, ha, hst, hcon, (h.store.stored id _ hst).2.2⟩
  routed id hidle path sub := by
    have hidle' : ∀ r, s.sessions.data[id]? = some r → ∀ f,
        s.broker.topics.lookup f id = ((s.state r).subscriptions[f]?).map fun q => ⟨id, r, q⟩ := by
      intro r hr f
      refine h.reached.inv.routed hr f fun c q hc hp => ?_
      rw [show (s.registry.holders c).pending = (s.conns c).pc.pending from rfl,
        hidle c (h.reached.inv.clients hc).1] at hp
      cases hp
    constructor
    · intro hget
      obtain ⟨f, -, rfl⟩ := h.filters path id sub hget
      obtain ⟨-, hst⟩ := h.reached.inv.carried hget
      rw [show s.broker.topics.root.get id (splitFilter f) = s.broker.topics.lookup f id from rfl,
        hidle' _ hst f] at hget
      obtain ⟨q, hq, hsub⟩ := Option.map_eq_some_iff.mp hget
      exact ⟨f, sub.subscriber, q, rfl, hst, hq, hsub.symm⟩
    · rintro ⟨f, r, q, rfl, hst, hq, rfl⟩
      show s.broker.topics.lookup f id = _
      rw [hidle' r hst f, hq]
      rfl

/-- **Sessions, routes and owners agree** in every reachable state of the server. -/
theorem ownership (cfg : Config) (s : Server) (h : Reachable cfg s) : s.Consistent := h.refines.consistent

/-- A server without users. -/
def openConfig : Config where
  auth := none
  crypto := ⟨fun _ => none, fun _ _ => none⟩
  maxPacketSize := 1024

/-- The first actions of a connection whose CONNECT has the client ID `id`: it is accepted, gets its
session and is ready to serve. -/
def connects (c : Nat) (id : UInt8) (clean : Bool) : List Action :=
  [.accept,
    .handler c { raw := [0x10, 13, 0, 4, 77, 81, 84, 84, 4, if clean then 2 else 0, 0, 60, 0, 1, id] },
    .handler c {}, .handler c {}, .handler c {}, .write c 4 none, .handler c {}, .handler c {}, .handler c {}]

/-- A connection subscribes to the filter `f` with QoS 1; its SUBACK is written. -/
def subscribes (c : Nat) (f : UInt8) : List Action :=
  [.handler c { raw := [0x82, 6, 0, 1, 0, 1, f, 1] }, .handler c {}, .handler c {}, .handler c {},
    .handler c {}, .write c 5 none, .handler c {}]

/-- The default server. -/
def fresh : Server := { broker := { limits := defaultRetainedLimits }, sessions := { limits := defaultLimits } }

theorem reachable_fresh {cfg : Config} {acts : List Action} {s : Server} (h : Sys.run (step cfg) fresh acts = some s) :
    Reachable cfg s :=
  ⟨_, _, defaultRetainedLimits, defaultLimits, acts, rfl, rfl, h⟩

theorem ownership_subscribed : ∃ s, Reachable openConfig s ∧ s.clients[([99] : Bytes)]? = some 0 ∧
    s.broker.topics.lookup [97] [99] = some ⟨[99], 0, 1⟩ ∧ s.Consistent := by
  have hrun : ((Sys.run (step openConfig) fresh (connects 0 99 true ++ subscribes 0 97)).map fun s =>
      (s.clients[([99] : Bytes)]?, s.broker.topics.lookup [97] [99])) =
      some (some 0, some ⟨[99], 0, 1⟩) := by decide +kernel
  obtain ⟨s, hs, he⟩ := Option.map_eq_some_iff.mp hrun
  obtain ⟨hc, hl⟩ := Prod.mk.inj he
  exact ⟨s, reachable_fresh hs, hc, hl, ownership openConfig s (reachable_fresh hs)⟩

end Server

end OrbMQ
