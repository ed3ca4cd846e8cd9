import OrbMQ.Server.Moves
import OrbMQ.Session.Turnover

/-!
# What a step of the server leaves alone

Most of what a handler knows stays true whatever the other goroutines do. `Server.Later s s'` collects
what every step keeps (`step_later`): sessions keep their names, owners and messages, connections
that own a session keep who they are, and while a publisher holds the read lock no session comes or
goes. To the other connections a section does at most what `Conn.Peer` says. `Server.Leads` is the graph
of the places of a handler: every section goes along one of its edges (`step_leads`).
-/

namespace OrbMQ

open Go

/-- The connection whose goroutine takes the action. -/
def Action.conn : Action → Option Nat
  | .handler c _ | .consumer c _ | .write c _ _ | .writerExit c => some c
  | _ => none

/-- What a section of one connection can do to another one. -/
inductive Conn.Peer (k : Conn) : Conn → Prop
  | same : Peer k k
  | enqueue (raw : Bytes) : Peer k { k with client := (k.client.enqueue raw).2 }
  | close : Peer k { k with client := k.client.close }
  | beginClosing (now : Time) : Peer k { k with active := k.active.map (·.beginClosing now) }

namespace Conn.Peer

variable {k k' : Conn}

theorem pc (h : k.Peer k') : k'.pc = k.pc := by cases h <;> rfl

theorem consumer (h : k.Peer k') : k'.consumer = k.consumer := by cases h <;> rfl

theorem identity (h : k.Peer k') : k'.identity = k.identity := by cases h <;> rfl

theorem connect (h : k.Peer k') : k'.connect = k.connect := by cases h <;> rfl

theorem id (h : k.Peer k') : k'.client.id = k.client.id := by
  cases h with
  | enqueue raw => exact k.client.enqueue_id raw
  | _ => rfl

end Conn.Peer

namespace Server

variable {cfg : Config} {s s' : Server} {c c' : Nat} {i : Input} {e : Effect} {f : Conn → Conn}

/-- `openSession` does not look at the connections. -/
theorem openSession_frame (s : Server) (connect : ConnectPacket) (identity : Bytes) (i : Input) :
    (s.openSession connect identity i).2.conns = s.conns ∧
    (s.openSession connect identity i).2.clients = s.clients ∧
    (s.openSession connect identity i).2.accepted = s.accepted ∧
    (s.openSession connect identity i).2.broker.retained = s.broker.retained := by
  unfold openSession
  dsimp only
  refine ⟨?_, ?_, ?_, ?_⟩ <;> (split <;> (try split)) <;> rfl

end Server

/-- The connection that an effect is on, if any. -/
def Effect.target : Effect → Option Nat
  | .enqueue o _ | .close o | .takeOver o _ => some o
  | _ => none

theorem Effect.conns_eq {e : Effect} (h : e.target = none) (c : Nat) (s : Server) :
    (e.apply c s).conns = s.conns := by
  cases e with
  | enqueue | close | takeOver => cases h
  | «open» i => exact (s.openSession_frame (s.conns c).connect (s.conns c).identity i).1
  | acquire i r => exact (s.openSession_frame (s.conns c).connect (s.conns c).identity i).1
  | release a =>
    simp only [apply]
    split <;> rfl
  | _ => rfl

theorem Effect.peer (e : Effect) (c : Nat) (s : Server) (c' : Nat) :
    (s.conns c').Peer ((e.apply c s).conns c') := by
  have hset : ∀ (o : Nat) (f : Conn → Conn), (∀ k : Conn, k.Peer (f k)) →
      (s.conns c').Peer ((s.setConn o f).conns c') := by
    intro o f hf
    rw [Server.conns_setConn]
    split
    · rename_i e
      exact e ▸ hf _
    · exact .same
  cases e with
  | enqueue o raw => exact hset o _ fun _ => .enqueue raw
  | close o => exact hset o _ fun _ => .close
  | takeOver o now => exact hset o _ fun _ => .beginClosing now
  | _ =>
    rw [conns_eq rfl]
    exact .same

theorem Effect.accepted (e : Effect) (c : Nat) (s : Server) : (e.apply c s).accepted = s.accepted := by
  cases e with
  | «open» i => exact (s.openSession_frame (s.conns c).connect (s.conns c).identity i).2.2.1
  | acquire i r => exact (s.openSession_frame (s.conns c).connect (s.conns c).identity i).2.2.1
  | release a =>
    simp only [apply]
    split <;> rfl
  | _ => rfl

/-- Only one effect is on the retained messages. -/
theorem Effect.retained_eq {e : Effect} (h : ∀ p, e ≠ .retain p) (c : Nat) (s : Server) :
    (e.apply c s).broker.retained = s.broker.retained := by
  cases e with
  | retain p => exact (h p rfl).elim
  | «open» i => exact (s.openSession_frame (s.conns c).connect (s.conns c).identity i).2.2.2
  | acquire i r =>
    refine Eq.trans (Broker.subscribes_retained _ _ _ _) ?_
    exact (s.openSession_frame (s.conns c).connect (s.conns c).identity i).2.2.2
  | release a =>
    simp only [apply]
    split <;> rfl
  | _ => rfl

namespace Server

variable {cfg : Config} {s s' : Server} {c c' : Nat} {i : Input} {e : Effect} {f : Conn → Conn}

/-! ## Sessions -/

theorem state_setSession (s : Server) (r r' : Nat) (res : State × Snapshot) :
    (s.setSession r res).state r' = if r' = r then res.1 else s.state r' := by
  simp only [setSession, state, Store.set, Function.update_apply]

/-- What a section does to the sessions: a call on one of them, or sessions come and go while nobody
holds the read lock, or nothing. -/
inductive Touches (s : Server) (c : Nat) : Effect → Prop
  | call {r : Nat} {op : StateOp} {res : State × Snapshot} : r < s.sessions.allocated → op.marks = false →
      op.run s.sessions.limits (s.state r) s.sessions.totals = some res → Touches s c (.call r op res)
  | turnover {e : Effect} : s.Unread → s.sessions.Turnover (e.apply c s).sessions → Touches s c e
  | nothing {e : Effect} : (e.apply c s).sessions = s.sessions → (e.apply c s).clients = s.clients →
      Touches s c e

theorem openSession_turnover (s : Server) (connect : ConnectPacket) (identity : Bytes) (i : Input) :
    s.sessions.Turnover (s.openSession connect identity i).2.sessions := by
  have h₁ := Store.Turnover.expireLocked s.sessions s.sessions.data[connect.clientID]? i.now
  unfold openSession
  dsimp only
  split
  · exact (h₁.trans (.deleteLocked _ _)).trans (.getOrCreateOwned _ _ _ _)
  · exact h₁.trans (.getOrCreateOwned _ _ _ _)

theorem Turn.touches (h : s.Refines cfg) (ht : Turn cfg s c i e f) : s.Touches c e := by
  cases ht with
  | takeOver | closePrevious | goes | handshake | authenticated | reject | denied | sends | ready | serve
  | route | unroute | offer | retain | enqueue | close | beginClosing | closeClient => exact .nothing rfl rfl
  | unopened _ hu => exact .turnover hu (openSession_turnover s _ _ i)
  | acquire _ hu =>
    refine .turnover hu ((openSession_turnover s (s.conns c).connect (s.conns c).identity i).trans ?_)
    exact .mark _ _ .markConnected rfl rfl
  | release _ hu =>
    refine .turnover hu ?_
    simp only [Effect.apply]
    split
    · exact .deleteLocked _ _
    · exact .mark _ _ (.markDisconnectedAt _) rfl rfl
  | begin _ ha => exact .call ((h.conns c).session _ ha) rfl rfl
  | calls _ ha hcall hop =>
    refine .call ((h.conns c).session _ ha) ?_ hop
    cases hcall <;> rfl
  | admission hpc hres =>
    refine .call ?_ rfl (by rw [StateOp.run, hres])
    have := (h.conns c).checked
    rw [hpc] at this
    exact this.2

theorem ConsumerTurn.touches (h : s.Refines cfg) (ht : ConsumerTurn s c e f) : s.Touches c e := by
  cases ht with
  | next _ ha hn =>
    refine .call ((h.conns c).session _ ha) rfl ?_
    rw [StateOp.run, hn]
    rfl
  | wake _ ha hst =>
    refine .call ((h.conns c).session _ ha) rfl ?_
    rw [StateOp.run, hst]
    rfl
  | _ => exact .nothing rfl rfl

/-- An entry of a queue was there before, or the section admits it. -/
theorem Touches.entry (h : s.Touches c e) {r p : Nat} (hr : r < (e.apply c s).sessions.allocated)
    (hp : p < ((e.apply c s).state r).allocated) :
    (r < s.sessions.allocated ∧ p < (s.state r).allocated) ∨
      ∃ now data off res, e = .call r (.admitMessage now data off) res ∧ p = (s.state r).allocated ∧
        (s.state r).admitMessage s.sessions.limits now data off s.sessions.totals = (.ok none, res) := by
  cases h with
  | @call r₀ op res hr₀ hm hop =>
    rw [show ((Effect.call r₀ op res).apply c s).state r = _ from state_setSession s r₀ r res] at hp
    split at hp
    · rename_i e
      subst e
      cases op with
      | admitMessage now data off =>
        have ha : (s.state r).admitMessage s.sessions.limits now data off s.sessions.totals =
          (((s.state r).admitMessage s.sessions.limits now data off s.sessions.totals).1, res) :=
          Prod.ext rfl (Option.some.inj hop)
        obtain ⟨hs, -⟩ | ⟨-, -, ⟨d, -, -, hs, -⟩ | ⟨-, he, hs, -⟩⟩ := State.admit_cases ha
        · exact .inl ⟨hr₀, hs ▸ hp⟩
        · rw [hs] at hp
          exact .inl ⟨hr₀, hp⟩
        · rw [hs] at hp
          rw [he] at ha
          rcases Nat.lt_succ_iff_lt_or_eq.mp hp with hlt | heq
          · exact .inl ⟨hr₀, hlt⟩
          · exact .inr ⟨now, data, off, res, rfl, heq, ha⟩
      | _ => exact .inl ⟨hr₀, (StateOp.frame hop).allocated nofun ▸ hp⟩
    · exact .inl ⟨hr, hp⟩
  | turnover hu ht =>
    by_cases hlt : r < s.sessions.allocated
    · exact .inl ⟨hlt, (ht.kept r hlt).allocated ▸ hp⟩
    · rw [show ((e.apply c s).state r).allocated = 0 from (ht.fresh r (Nat.not_lt.mp hlt) hr).1] at hp
      exact absurd hp (Nat.not_lt_zero p)
  | nothing hs hc =>
    rw [hs] at hr
    rw [state, hs] at hp
    exact .inl ⟨hr, hp⟩

/-- Sessions keep their names, owners and messages. -/
structure SessionsLater (s s' : Server) : Prop where
  limits : s'.sessions.limits = s.sessions.limits
  allocated : s.sessions.allocated ≤ s'.sessions.allocated
  id : ∀ r < s.sessions.allocated, (s'.state r).id = (s.state r).id
  owner : ∀ r < s.sessions.allocated, (s'.state r).owner = (s.state r).owner
  keeps : ∀ r < s.sessions.allocated, (s.state r).Keeps (s'.state r)
  fresh : ∀ r, s.sessions.allocated ≤ r → r < s'.sessions.allocated → (s'.state r).allocated = 0
  /-- No session comes or goes while a publisher holds the read lock. -/
  locked : ¬ s.Unread → s'.sessions.data = s.sessions.data ∧ s'.clients = s.clients ∧
    s'.sessions.allocated = s.sessions.allocated ∧ ∀ r, (s'.state r).deleted = (s.state r).deleted

theorem SessionsLater.of_turnover (hu : s.Unread) (h : s.sessions.Turnover s'.sessions) : SessionsLater s s' where
  limits := h.limits
  allocated := h.allocated
  id r hr := (h.kept r hr).id
  owner r hr := (h.kept r hr).owner
  keeps r hr := .of_heap (h.kept r hr).heap (h.kept r hr).allocated
  fresh r hr hr' := (h.fresh r hr hr').1
  locked hn := (hn hu).elim

theorem SessionsLater.of_eq (h : s'.sessions = s.sessions) (hc : s'.clients = s.clients) : SessionsLater s s' where
  limits := by rw [h]
  allocated := by rw [h]
  id r _ := by rw [state, h]; rfl
  owner r _ := by rw [state, h]; rfl
  keeps r _ := by rw [state, state, h]; exact .refl _
  fresh r hr hr' := by rw [h] at hr'; exact absurd hr' (Nat.not_lt.mpr hr)
  locked _ := ⟨by rw [h], hc, by rw [h], fun _ => by rw [state, h]; rfl⟩

theorem SessionsLater.of_call {r : Nat} {op : StateOp} {res : State × Snapshot}
    (hop : op.run s.sessions.limits (s.state r) s.sessions.totals = some res) :
    SessionsLater s (s.setSession r res) := by
  have hf := StateOp.frame hop
  have hk := StateOp.keeps hop
  refine ⟨rfl, Nat.le_refl _, fun r' _ => ?_, fun r' _ => ?_, fun r' _ => ?_,
    fun r' h h' => absurd h' (Nat.not_lt.mpr h), fun _ => ⟨rfl, rfl, rfl, fun r' => ?_⟩⟩
  all_goals
    rw [state_setSession]
    split
    · rename_i e
      subst e
      first
        | exact hf.id
        | exact hf.owner
        | exact hk
        | exact hf.deleted
    · first
        | rfl
        | exact .refl _

theorem Touches.later (h : s.Touches c e) : SessionsLater s (e.apply c s) := by
  cases h with
  | call hr _ hop => exact .of_call hop
  | turnover hu ht => exact .of_turnover hu ht
  | nothing hs hc => exact .of_eq hs hc

/-! ## Connections -/

end Server

/-- A connection that owns a session keeps who it is; what was accepted to its queue stays. -/
structure Conn.Later (k k' : Conn) : Prop where
  owner : ∀ a, k.active = some a → ∃ a', k'.active = some a' ∧ a'.session = a.session ∧
    a'.cleanSession = a.cleanSession ∧ (a.closing = true → a'.closing = true ∧ a'.disconnectedAt = a.disconnectedAt) ∧
    (a.ready = true → a'.ready = true)
  named : k.active ≠ none → k'.identity = k.identity ∧ k'.connect = k.connect ∧ k'.client.id = k.client.id
  accepted : k.pc ≠ .handshake → k.client.accepted <+: k'.client.accepted

theorem Client.enqueue_cases (c : Client) (raw : Bytes) :
    (c.enqueue raw).2.accepted = c.accepted ++ [raw] ∨ (c.enqueue raw).2.accepted = c.accepted := by
  obtain ⟨-, ⟨-, e⟩ | ⟨-, e⟩⟩ := Client.enqueueWrite_cases (rfl : c.enqueueWrite ⟨raw, none⟩ = _)
  · exact .inl e
  · exact .inr e

theorem Client.accepted_enqueue (c : Client) (raw : Bytes) : c.accepted <+: (c.enqueue raw).2.accepted := by
  obtain e | e := c.enqueue_cases raw
  · exact e ▸ List.prefix_append _ _
  · exact e ▸ List.prefix_rfl

theorem Client.accepted_send (c : Client) (raw : Bytes) : c.accepted <+: (c.send raw).2.accepted := by
  obtain ⟨-, ⟨-, e⟩ | ⟨-, e⟩⟩ := Client.send_cases (rfl : c.send raw = _)
  · exact e ▸ List.prefix_append _ _
  · exact e ▸ List.prefix_rfl

theorem Client.send_ok {c c' : Client} {raw : Bytes} {channel : Nat} (h : c.send raw = (.ok channel, c')) :
    c'.accepted = c.accepted ++ [raw] := by
  obtain ⟨-, ⟨-, e⟩ | ⟨⟨_, e⟩, -⟩⟩ := Client.send_cases h
  · exact e
  · cases e

/-- A packet is refused, or it is in the queue and the handler waits for it. -/
theorem Conn.sendPacket_sends (k : Conn) (pkt : Packet) (reply : Reply) :
    ∃ client pc, k.sendPacket pkt reply = { k with client, pc } ∧ client.id = k.client.id ∧
      ((pc = reply.failed ∧ client.accepted = k.client.accepted ∧
          (client = k.client ∨ ∃ raw, client = (k.client.send raw).2)) ∨
        ∃ channel raw, pc = .awaiting channel reply ∧ encode pkt [] = .ok () raw ∧
          k.client.send raw = (.ok channel, client)) := by
  unfold Conn.sendPacket
  split
  · exact ⟨k.client, _, rfl, rfl, .inl ⟨rfl, rfl, .inl rfl⟩⟩
  · rename_i raw henc
    split <;> rename_i hs
    · obtain ⟨hid, ⟨⟨_, e⟩, -⟩ | ⟨-, ha⟩⟩ := Client.send_cases hs
      · cases e
      · exact ⟨_, _, rfl, hid, .inl ⟨rfl, ha, .inr ⟨raw, by rw [hs]⟩⟩⟩
    · exact ⟨_, _, rfl, (Client.send_cases hs).1, .inr ⟨_, raw, rfl, henc, hs⟩⟩

namespace Conn.Later

variable {k k' k'' : Conn}

theorem of_eq (ha : k'.active = k.active) (hn : k'.identity = k.identity ∧ k'.connect = k.connect ∧
    k'.client.id = k.client.id) (hc : k.client.accepted <+: k'.client.accepted) : k.Later k' :=
  ⟨fun a h => ⟨a, ha.trans h, rfl, rfl, fun h => ⟨h, rfl⟩, id⟩, fun _ => hn, fun _ => hc⟩

theorem refl (k : Conn) : k.Later k := of_eq rfl ⟨rfl, rfl, rfl⟩ List.prefix_rfl

theorem trans (hpc : k.pc ≠ .handshake → k'.pc ≠ .handshake) (h : k.Later k') (h' : k'.Later k'') : k.Later k'' where
  owner a ha := by
    obtain ⟨a₁, h₁, hs₁, hc₁, hl₁, hr₁⟩ := h.owner a ha
    obtain ⟨a₂, h₂, hs₂, hc₂, hl₂, hr₂⟩ := h'.owner a₁ h₁
    refine ⟨a₂, h₂, hs₂.trans hs₁, hc₂.trans hc₁, fun hcl => ?_, fun hr => hr₂ (hr₁ hr)⟩
    obtain ⟨hx, hy⟩ := hl₁ hcl
    obtain ⟨hx', hy'⟩ := hl₂ hx
    exact ⟨hx', hy'.trans hy⟩
  named ha := by
    obtain ⟨a, ha'⟩ := Option.ne_none_iff_exists'.mp ha
    obtain ⟨a₁, h₁, -⟩ := h.owner a ha'
    obtain ⟨x, y, z⟩ := h.named ha
    obtain ⟨x', y', z'⟩ := h'.named (by simp [h₁])
    exact ⟨x'.trans x, y'.trans y, z'.trans z⟩
  accepted hk := (h.accepted hk).trans (h'.accepted (hpc hk))

/-- Flags of the owner that are set, and never taken back. -/
theorem flag {g : ActiveConnection → ActiveConnection} {pc : Pc}
    (hg : ∀ a, (g a).session = a.session ∧ (g a).cleanSession = a.cleanSession ∧
      (a.closing = true → (g a).closing = true ∧ (g a).disconnectedAt = a.disconnectedAt) ∧
      (a.ready = true → (g a).ready = true)) : k.Later { k with active := k.active.map g, pc } :=
  ⟨fun a h => ⟨g a, by simp [h], hg a⟩, fun _ => ⟨rfl, rfl, rfl⟩, fun _ => List.prefix_rfl⟩

theorem beginClosing_flag (now : Time) (a : ActiveConnection) : (a.beginClosing now).session = a.session ∧
    (a.beginClosing now).cleanSession = a.cleanSession ∧
    (a.closing = true → (a.beginClosing now).closing = true ∧
      (a.beginClosing now).disconnectedAt = a.disconnectedAt) ∧
    (a.ready = true → (a.beginClosing now).ready = true) := by
  unfold ActiveConnection.beginClosing
  split <;> simp_all

/-- Only the place, the consumer and the contents of the client change. -/
theorem place (k : Conn) (client : Client) (hid : client.id = k.client.id)
    (hc : k.client.accepted <+: client.accepted) (consumer : Consumer) (pc : Pc) :
    k.Later { k with client, consumer, pc } := of_eq rfl ⟨rfl, rfl, hid⟩ hc

theorem of_peer (h : k.Peer k') : k.Later k' := by
  cases h with
  | same => exact refl k
  | enqueue raw => exact place k _ (k.client.enqueue_id raw) (k.client.accepted_enqueue raw) _ _
  | close => exact place k k.client.close rfl List.prefix_rfl _ _
  | beginClosing now => exact flag (beginClosing_flag now)

/-- A connection without a session has nothing to keep but its queue. -/
theorem of_none (ha : k.active = none) (hc : k.pc ≠ .handshake → k.client.accepted <+: k'.client.accepted) :
    k.Later k' :=
  ⟨fun a h => (by rw [ha] at h; cases h), fun h => (h ha).elim, hc⟩

theorem sendPacket (k : Conn) (pkt : Packet) (reply : Reply) : k.Later (k.sendPacket pkt reply) := by
  unfold Conn.sendPacket
  split
  · exact place k _ rfl List.prefix_rfl _ _
  · rename_i raw _
    have hs := k.client.accepted_send raw
    have hid := k.client.send_id raw
    split <;> rename_i hsend <;>
    · rw [hsend] at hs hid
      exact place k _ hid hs _ _

end Conn.Later

namespace Server

variable {cfg : Config} {s s' : Server} {c c' : Nat} {i : Input} {e : Effect} {f : Conn → Conn}

/-! ## The places of a handler -/

/-- The places that a handler can go to from the one that it is at. -/
inductive Leads : Pc → Pc → Prop
  -- `handleConn` up to the session
  | unread : Leads .handshake .finished
  | connect : Leads .handshake .authenticating
  | refused {code : ConnAckReturnCode} : Leads .authenticating (.rejecting code)
  | authenticated : Leads .authenticating .acquiring
  | reject {code : ConnAckReturnCode} {channel : Nat} : Leads (.rejecting code) (.awaiting channel .refusal)
  | rejected {code : ConnAckReturnCode} : Leads (.rejecting code) .deferred
  | unopened : Leads .acquiring .deferred
  | foreign : Leads .acquiring (.rejecting .notAuthorized)
  | takeOver {previous : Nat} : Leads .acquiring (.takingOver previous)
  | acquire {present : Bool} : Leads .acquiring (.connack present)
  | closePrevious {previous : Nat} : Leads (.takingOver previous) (.waitingFor previous)
  | gaveUp {previous : Nat} : Leads (.waitingFor previous) .deferred
  | again {previous : Nat} : Leads (.waitingFor previous) .acquiring
  | connack {present : Bool} {channel : Nat} : Leads (.connack present) (.awaiting channel .connack)
  | unanswered {present : Bool} : Leads (.connack present) .deferred
  | unready : Leads .readying .deferred
  | ready : Leads .readying .beginning
  | begin : Leads .beginning .serving
  -- `serve` and the handlers of packets
  | failed : Leads .serving (.ending false)
  | serve {pkt : Packet} : Leads .serving (.handling pkt)
  | over {pkt : Packet} {clean : Bool} : Leads (.handling pkt) (.ending clean)
  | ping {channel : Nat} : Leads (.handling .pingReq) (.awaiting channel .response)
  | ack {p : PubAckPacket} : Leads (.handling (.pubAck p)) .serving
  | pause {p : SubscribePacket} : Leads (.handling (.subscribe p)) (.subscribing p [] p.subscriptions)
  | decide {p : SubscribePacket} {codes : Bytes} {sub : SubscribeEntry} {rest : List SubscribeEntry} :
      Leads (.subscribing p codes (sub :: rest)) (.subscribing p (codes ++ [0x80]) rest)
  | subscribe {p : SubscribePacket} {codes : Bytes} {sub : SubscribeEntry} {rest : List SubscribeEntry} {qos : UInt8} :
      Leads (.subscribing p codes (sub :: rest)) (.routing p codes sub.topic qos rest)
  | route {p : SubscribePacket} {codes filter : Bytes} {qos : UInt8} {rest : List SubscribeEntry} :
      Leads (.routing p codes filter qos rest) (.subscribing p (codes ++ [qos]) rest)
  | suback {p : SubscribePacket} {codes : Bytes} {channel : Nat} : Leads (.subscribing p codes [])
      (.awaiting channel (.suback ((p.subscriptions.map (·.topic)).zip codes)))
  | unsubacked {p : SubscribePacket} {codes : Bytes} : Leads (.subscribing p codes []) (.resuming false)
  | replayed : Leads (.replaying []) (.resuming true)
  | refusedEntry {filter : Bytes} {code : UInt8} {entries : List (Bytes × UInt8)} :
      Leads (.replaying ((filter, code) :: entries)) (.replaying entries)
  | load {filter : Bytes} {code : UInt8} {entries : List (Bytes × UInt8)} {retained : List PublishPacket} :
      Leads (.replaying ((filter, code) :: entries)) (.offering retained code entries)
  | offered {code : UInt8} {entries : List (Bytes × UInt8)} : Leads (.offering [] code entries) (.replaying entries)
  | offer {m : PublishPacket} {rest : List PublishPacket} {code : UInt8} {entries : List (Bytes × UInt8)} :
      Leads (.offering (m :: rest) code entries) (.offering rest code entries)
  | unoffered {m : PublishPacket} {rest : List PublishPacket} {code : UInt8} {entries : List (Bytes × UInt8)} :
      Leads (.offering (m :: rest) code entries) (.resuming false)
  | resume : Leads (.resuming true) .serving
  | broken : Leads (.resuming false) (.ending false)
  | unsubscribe {p : UnsubscribePacket} : Leads (.handling (.unsubscribe p)) (.unsubscribing p p.topics)
  | unroute {p : UnsubscribePacket} {filter : Bytes} {rest : List Bytes} :
      Leads (.unsubscribing p (filter :: rest)) (.forgetting p filter rest)
  | forget {p : UnsubscribePacket} {filter : Bytes} {rest : List Bytes} :
      Leads (.forgetting p filter rest) (.unsubscribing p rest)
  | unsuback {p : UnsubscribePacket} {channel : Nat} : Leads (.unsubscribing p []) (.awaiting channel .response)
  | unsubackFails {p : UnsubscribePacket} : Leads (.unsubscribing p []) (.ending false)
  -- `publishMessage`
  | publish {p : PublishPacket} : Leads (.handling (.publish p)) (.publishing .packet p .locking)
  | lock {origin : Origin} {p : PublishPacket} :
      Leads (.publishing origin p .locking) (.publishing origin p .retaining)
  | retain {origin : Origin} {p : PublishPacket} :
      Leads (.publishing origin p .retaining) (.publishing origin p .matching)
  | unretained {origin : Origin} {p : PublishPacket} {err : Option Err} :
      Leads (.publishing origin p .retaining) (.publishing origin p (.returning err))
  | fanOut {origin : Origin} {p : PublishPacket} {stage : PublishStage} {cache : PublishDeliveryCache}
      {err : Option Err} {subs : List (Subscription Nat)} : stage.reading = true →
      Leads (.publishing origin p stage) (.publishing origin p (.visiting cache err subs))
  | deliver {origin : Origin} {p : PublishPacket} {stage : PublishStage} {cache : PublishDeliveryCache}
      {err : Option Err} {target : Target} {subs : List (Subscription Nat)} : stage.reading = true →
      Leads (.publishing origin p stage) (.publishing origin p (.delivering cache err target subs))
  | visited {origin : Origin} {p : PublishPacket} {cache : PublishDeliveryCache} {err : Option Err} :
      Leads (.publishing origin p (.visiting cache err [])) (.publishing origin p (.returning err))
  | acknowledge {p : PublishPacket} : p.qos = 1 →
      Leads (.publishing .packet p (.returning none)) (.acknowledging p.packetID)
  | published {p : PublishPacket} : Leads (.publishing .packet p (.returning none)) .serving
  | unpublished {p : PublishPacket} {err : Option Err} :
      Leads (.publishing .packet p (.returning err)) (.ending false)
  | willed {p : PublishPacket} {err : Option Err} : Leads (.publishing .will p (.returning err)) .deferred
  | puback {packetID : UInt16} {channel : Nat} : Leads (.acknowledging packetID) (.awaiting channel .response)
  | pubackFails {packetID : UInt16} : Leads (.acknowledging packetID) (.ending false)
  -- the write of a packet of the handler's own
  | written {channel : Nat} {reply : Reply} : Leads (.awaiting channel reply) reply.sent
  | unwritten {channel : Nat} {reply : Reply} : Leads (.awaiting channel reply) reply.failed
  -- the deferred functions of `handleConn`
  | ended {clean : Bool} : Leads (.ending clean) .deferred
  | will {w : WillMessage} : Leads (.ending false) (.publishing .will (willPublish w) .locking)
  | beginClosing : Leads .deferred .closingClient
  | closeClient : Leads .closingClient .joining
  | joined : Leads .joining .waitingWriter
  | drained : Leads .waitingWriter .closingSession
  | finished : Leads .closingSession .finished

theorem published_leads (origin : Origin) (p : PublishPacket) (err : Option Err) :
    Leads (.publishing origin p (.returning err)) (published origin p err) := by
  unfold published
  cases origin with
  | will => exact .willed
  | packet =>
    cases err with
    | some e => exact .unpublished
    | none =>
      by_cases hqos : p.qos = 1
      · simpa [hqos] using Leads.acknowledge hqos
      · simpa [hqos] using Leads.published

theorem Goes.leads {pc pc' : Pc} (hg : Goes cfg s c i pc pc') : Leads pc pc' := by
  cases hg with
  | returned => exact published_leads _ _ _
  | matched | skip | failed => exact .fanOut rfl
  | send | queue => exact .deliver rfl
  | _ => constructor

theorem Sends.leads {pc : Pc} {pkt : Packet} {reply : Reply} (hs : Sends pc pkt reply) (channel : Nat) :
    Leads pc (.awaiting channel reply) ∧ Leads pc reply.failed := by
  cases hs <;> exact ⟨by constructor, by constructor⟩

theorem Calls.leads {r : Nat} {pc pc' : Pc} {op : StateOp} (hcall : Calls cfg s i r pc op pc') : Leads pc pc' := by
  cases hcall with
  | @resume ok => cases ok <;> constructor
  | _ => constructor

theorem sendPacket_leads {pc : Pc} {pkt : Packet} {reply : Reply} (k : Conn)
    (h : ∀ channel, Leads pc (.awaiting channel reply) ∧ Leads pc reply.failed) :
    Leads pc (k.sendPacket pkt reply).pc := by
  obtain ⟨client, pc', e, -, ⟨rfl, -⟩ | ⟨channel, _, rfl, -⟩⟩ := k.sendPacket_sends pkt reply <;> rw [e]
  · exact (h 0).2
  · exact (h channel).1

/-- A section goes along an edge. -/
theorem Turn.leads (ht : Turn cfg s c i e f) : Leads (s.conns c).pc (f ((e.apply c s).conns c)).pc := by
  cases ht with
  | goes hpc hg => exact hpc ▸ hg.leads
  | handshake hpc =>
    show Leads _ ((s.conns c).handshake cfg i).pc
    obtain e | ⟨_, -, e⟩ := (s.conns c).handshake_cases cfg i <;> rw [hpc, e] <;> constructor
  | serve hpc =>
    show Leads _ ((s.conns c).serve cfg i).pc
    obtain e | ⟨_, -, e⟩ := (s.conns c).serve_cases cfg i <;> rw [hpc, e] <;> constructor
  | reject hpc =>
    rw [hpc]
    exact sendPacket_leads _ fun _ => ⟨.reject, .rejected⟩
  | sends hpc hsend =>
    rw [hpc]
    exact sendPacket_leads _ hsend.leads
  | denied hpc hcase =>
    rw [hpc]
    obtain ⟨_, rfl, rfl⟩ | ⟨_, _, _, _, rfl, rfl⟩ := hcase <;> constructor
  | calls hpc _ hcall => exact hpc ▸ hcall.leads
  | unopened hpc =>
    rw [hpc]
    dsimp only
    split <;> constructor
  | offer hpc _ _ _ hcase =>
    rw [hpc]
    obtain rfl | rfl := hcase <;> constructor
  | retain hpc =>
    rw [hpc]
    dsimp only
    split <;> constructor
  | enqueue hpc =>
    rw [hpc]
    dsimp only
    split
    · exact .fanOut rfl
    · exact .deliver rfl
  | close hpc | admission hpc =>
    rw [hpc]
    exact .fanOut rfl
  | authenticated hpc | takeOver hpc | acquire hpc | closePrevious hpc | ready hpc | begin hpc | route hpc | unroute hpc
  | beginClosing hpc | closeClient hpc | release hpc =>
    rw [hpc]
    constructor

/-! ## A section, to its own connection -/

theorem Turn.own (h : s.Refines cfg) (ht : Turn cfg s c i e f) :
    ((e.apply c s).conns c).Later (f ((e.apply c s).conns c)) := by
  have hok := h.conns c
  have hnone : ∀ {pc}, (s.conns c).pc = pc → pc.early = true → (s.conns c).active = none :=
    fun hpc he => hok.early (hpc ▸ he)
  have hplace : ∀ (k : Conn) (pc : Pc), k.Later { k with pc } := fun k pc => .place k _ rfl List.prefix_rfl _ _
  cases ht with
  | handshake hpc => exact .of_none (hnone hpc rfl) fun h => (h hpc).elim
  | authenticated hpc => exact .of_none (hnone hpc rfl) fun _ => List.prefix_rfl
  | reject | sends => exact .sendPacket _ _ _
  | acquire hpc =>
    rw [Effect.conns_eq rfl]
    exact .of_none (hnone hpc rfl) fun _ => List.prefix_rfl
  | ready => exact .flag fun a => ⟨rfl, rfl, fun h => ⟨h, rfl⟩, fun _ => rfl⟩
  | begin => exact .place _ _ rfl List.prefix_rfl _ _
  | serve =>
    obtain e | ⟨pkt, -, e⟩ := (s.conns c).serve_cases cfg i <;>
    · show (s.conns c).Later ((s.conns c).serve cfg i)
      rw [e]
      exact hplace _ _
  | offer => exact .place _ _ (Client.enqueue_id _ _) (Client.accepted_enqueue _ _) _ _
  | beginClosing => exact .flag (Conn.Later.beginClosing_flag i.now)
  | closeClient => exact .place (s.conns c) (s.conns c).client.close rfl List.prefix_rfl _ _
  | release hpc hu ha =>
    rw [Effect.conns_eq rfl]
    refine ⟨fun b hb => ⟨_, rfl, ?_⟩, fun _ => ⟨rfl, rfl, rfl⟩, fun _ => List.prefix_rfl⟩
    cases ha.symm.trans hb
    exact ⟨rfl, rfl, fun h => ⟨h, rfl⟩, id⟩
  | _ => exact hplace _ _

theorem ConsumerTurn.own (ht : ConsumerTurn s c e f) :
    ((e.apply c s).conns c).Later (f ((e.apply c s).conns c)) := by
  cases ht with
  | send => exact .place _ _ (Client.send_id _ _) (Client.accepted_send _ _) _ _
  | fail => exact .place (s.conns c) (s.conns c).client.close rfl List.prefix_rfl _ _
  | _ => exact .place _ _ rfl List.prefix_rfl _ _

/-! ## Every step -/

structure Later (s s' : Server) : Prop extends SessionsLater s s' where
  accepted : s.accepted ≤ s'.accepted
  conns : ∀ c, (s.conns c).Later (s'.conns c)

theorem Later.of_turn (hs : SessionsLater s (e.apply c s))
    (hown : ((e.apply c s).conns c).Later (f ((e.apply c s).conns c))) :
    Later s ((e.apply c s).setConn c f) := by
  refine ⟨⟨hs.limits, hs.allocated, hs.id, hs.owner, hs.keeps, hs.fresh, hs.locked⟩,
    Nat.le_of_eq (e.accepted c s).symm, fun c' => ?_⟩
  have hpeer := e.peer c s c'
  rw [conns_setConn]
  split
  · rename_i hc
    subst hc
    exact (Conn.Later.of_peer hpeer).trans (fun hk => hpeer.pc.symm ▸ hk) hown
  · exact .of_peer hpeer

theorem Later.of_client {client : Client} (hid : client.id = (s.conns c).client.id)
    (hc : (s.conns c).client.accepted = client.accepted) : Later s (s.setConn c ({ · with client })) := by
  have hl : (s.conns c).Later { s.conns c with client } := .place _ _ hid (hc ▸ List.prefix_rfl) _ _
  refine ⟨.of_eq rfl rfl, Nat.le_refl _, fun c' => ?_⟩
  rw [conns_setConn]
  split
  · rename_i e
    exact e ▸ hl
  · exact .refl _

theorem Client.writerExit_keeps {c c' : Client} (h : c.writerExit = some c') :
    c'.id = c.id ∧ c'.accepted = c.accepted := by
  unfold Client.writerExit at h
  split at h <;> cases h
  exact ⟨rfl, rfl⟩

theorem Moves.later {a : Action} (h : s.Refines cfg) (hm : Moves cfg s a s') : Later s s' := by
  cases hm with
  | accept => exact ⟨.of_eq rfl rfl, Nat.le_succ _, fun _ => .refl _⟩
  | handler _ ht => exact .of_turn (ht.touches h).later (ht.own h)
  | consumer _ ht => exact .of_turn (ht.touches h).later ht.own
  | write _ hw => exact .of_client (Client.writeNext_keeps hw).1 (Client.writeNext_keeps hw).2.symm
  | writerExit _ hw => exact .of_client (Client.writerExit_keeps hw).1 (Client.writerExit_keeps hw).2.symm
  | sweep hu hr =>
    exact ⟨.of_turnover hu (.expire _ _ _), Nat.le_refl _, fun _ => .refl _⟩

/-- What a step does to the connection `c`. -/
inductive ConnMoves (cfg : Config) (s : Server) (c : Nat) : Action → Conn → Prop
  | own {i : Input} {e : Effect} {f : Conn → Conn} : Turn cfg s c i e f →
      ConnMoves cfg s c (.handler c i) (f ((e.apply c s).conns c))
  | consumer {i : Input} {e : Effect} {f : Conn → Conn} : ConsumerTurn s c e f →
      ConnMoves cfg s c (.consumer c i) (f (s.conns c))
  | write {n : Nat} {err : Option Err} {client : Client} : (s.conns c).client.writeNext n err = some client →
      ConnMoves cfg s c (.write c n err) { s.conns c with client }
  | writerExit {client : Client} : (s.conns c).client.writerExit = some client →
      ConnMoves cfg s c (.writerExit c) { s.conns c with client }
  | effect {c' : Nat} {i : Input} {e : Effect} {f : Conn → Conn} : c' ≠ c → Turn cfg s c' i e f →
      ConnMoves cfg s c (.handler c' i) ((e.apply c' s).conns c)
  | same {a : Action} : a.conn ≠ some c → ConnMoves cfg s c a (s.conns c)

theorem step_conn {a : Action} (h : s.Refines cfg) (hs : s.step cfg a = some s') (c : Nat) :
    ConnMoves cfg s c a (s'.conns c) := by
  cases step_moves h hs with
  | @handler c' i e f _ ht =>
    rw [conns_setConn]
    split
    · rename_i hc
      subst hc
      exact .own ht
    · rename_i hc
      exact .effect (Ne.symm hc) ht
  | @consumer c' i e f _ ht =>
    have htarget : e.target = none := by cases ht <;> rfl
    rw [conns_setConn, Effect.conns_eq htarget]
    split
    · rename_i hc
      subst hc
      exact .consumer ht
    · rename_i hc
      exact .same fun he => hc (Option.some.inj he).symm
  | write _ hw =>
    rw [conns_setConn]
    split
    · rename_i hc
      subst hc
      exact .write hw
    · rename_i hc
      exact .same fun he => hc (Option.some.inj he).symm
  | writerExit _ hw =>
    rw [conns_setConn]
    split
    · rename_i hc
      subst hc
      exact .writerExit hw
    · rename_i hc
      exact .same fun he => hc (Option.some.inj he).symm
  | accept => exact .same nofun
  | sweep => exact .same nofun

/-- A consumer that takes a step was started. -/
theorem ConsumerTurn.started (ht : ConsumerTurn s c e f) : (s.conns c).consumer ≠ .absent := by
  cases ht with
  | leave hc => obtain e | e := hc <;> simp [e]
  | _ => simp_all

/-- Only a publisher changes the retained messages. -/
theorem Moves.retained {a : Action} (hm : Moves cfg s a s') : s'.broker.retained = s.broker.retained ∨
    ∃ c i origin p, a = .handler c i ∧ (s.conns c).pc = .publishing origin p .retaining ∧ p.retain = true ∧
      s'.broker = (s.broker.updateRetained p).2 := by
  cases hm with
  | @handler c i e f hc ht =>
    by_cases hret : ∃ p, e = .retain p
    · obtain ⟨p, rfl⟩ := hret
      cases ht with
      | retain hpc hp => exact .inr ⟨c, i, _, p, rfl, hpc, hp, rfl⟩
    · exact .inl (Effect.retained_eq (fun p hp => hret ⟨p, hp⟩) c s)
  | consumer hc ht => cases ht <;> exact .inl rfl
  | sweep => exact .inl (Broker.unsubscribesAll_retained _ _)
  | _ => exact .inl rfl

theorem goto_pc (s : Server) (c : Nat) (pc : Pc) : ((s.goto c pc).conns c).pc = pc := by
  rw [goto, conns_setConn, if_pos rfl]

theorem step_handler (hstep : s.step cfg (.handler c i) = some s') : s.handlerStep cfg c i = some s' :=
  (Option.ite_none_right_eq_some.mp hstep).2

/-- A section of its handler takes a connection along an edge. -/
theorem step_leads (h : s.Refines cfg) (hstep : s.step cfg (.handler c i) = some s') :
    Leads (s.conns c).pc (s'.conns c).pc := by
  have hm := step_conn h hstep c
  generalize s'.conns c = k at hm
  cases hm with
  | own ht => exact ht.leads
  | effect hne => exact (hne rfl).elim
  | same hne => exact (hne rfl).elim

/-- Only a section of its handler moves a connection on. -/
theorem step_pc {a : Action} (h : s.Refines cfg) (hs : s.step cfg a = some s') (c : Nat) :
    (s'.conns c).pc = (s.conns c).pc ∨ ∃ i, a = .handler c i := by
  have hm := step_conn h hs c
  generalize s'.conns c = k at hm
  cases hm with
  | own => exact .inr ⟨_, rfl⟩
  | consumer ht => cases ht <;> exact .inl rfl
  | effect => exact .inl (Effect.peer _ _ _ _).pc
  | write | writerExit | same => exact .inl rfl

theorem step_pc_eq {a : Action} (h : s.Refines cfg) (hs : s.step cfg a = some s') (ha : ∀ i, a ≠ .handler c i) :
    (s'.conns c).pc = (s.conns c).pc :=
  (step_pc h hs c).resolve_right fun ⟨i, e⟩ => ha i e

theorem step_later {a : Action} (h : s.Refines cfg) (hs : s.step cfg a = some s') : Later s s' :=
  (step_moves h hs).later h

end Server

end OrbMQ
