import OrbMQ.Server.Frame

/-!
# The messages of a server are where they may be

`Server.Sound` follows the messages through the server: the publication at hand in a handler, the
subscribers that it still has to visit, the retained messages that a SUBSCRIBE offers, the queues of
the sessions and of the connections. It says that each of them has the right bytes, and that its
owner may read its topic: a filter that the owner may subscribe to matches it (`Readable`). Every step
keeps it (`Sound.step`), whatever the other goroutines do, since publishers hold the read lock.
-/

namespace OrbMQ

open Go

/-! ## Who may read and publish -/

/-- Some filter that `identity` may subscribe to matches the topic. -/
def Readable (cfg : Config) (identity name : Bytes) : Prop :=
  ∃ f, IsTopicFilter f ∧ canSubscribe cfg identity f = true ∧ matchFilter f name = true

/-- What `authenticateConnect` has checked of a connection that it accepts. -/
structure Entitled (cfg : Config) (identity clientID : Bytes) (will : Option WillMessage) : Prop where
  anonymous : cfg.auth = none → identity = []
  clientID : ∀ l, cfg.auth = some l → l.canUseClientID identity clientID = true
  will : ∀ w, will = some w → canPublish cfg identity w.topic = true

theorem authenticateConnect_accepted {cfg : Config} {i : Input} {connect : ConnectPacket} {identity : Bytes}
    (h : authenticateConnect cfg i connect = (identity, .accepted)) :
    Entitled cfg identity connect.clientID connect.will := by
  unfold authenticateConnect at h
  cases ha : cfg.auth with
  | none =>
    rw [ha] at h
    cases h
    exact ⟨fun _ => rfl, by simp [ha], fun w _ => by simp [canPublish, ha]⟩
  | some l =>
    simp only [ha] at h
    repeat' split at h
    all_goals cases h
    rename_i hallowed
    simp only [Bool.or_eq_true, Bool.not_eq_true', Option.any_eq_true, not_or, not_exists, not_and,
      Bool.not_eq_false] at hallowed
    refine ⟨by simp [ha], fun l' hl' => ?_, fun w hw => ?_⟩
    · cases ha.symm.trans hl'
      exact hallowed.1
    · simpa [canPublish, ha] using hallowed.2 w hw

/-- The bytes of a PUBLISH that `identity` may read. -/
def ReadableBytes (cfg : Config) (identity raw : Bytes) : Prop :=
  ∃ m, EncodedAs raw m ∧ Readable cfg identity m.topic

/-- A queue entry is the template of a PUBLISH that `owner` may read. -/
def ReadableEntry (cfg : Config) (owner : Bytes) (e : Entry) : Prop :=
  ∃ m, TemplateOf ⟨e.data, e.packetIDOffset⟩ (newOutboundPublish m 1) ∧ Readable cfg owner m.topic

/-! ## The places of a handler -/

/-- The subscribers that a publication still has to visit. -/
structure Subscribers (cfg : Config) (s : Server) (p : PublishPacket) (subs : List (Subscription Nat)) : Prop where
  unique : (subs.map (·.clientID)).Nodup
  qos : ∀ sub ∈ subs, sub.qos ≤ 1
  stored : ∀ sub ∈ subs, s.sessions.data[sub.clientID]? = some sub.subscriber
  readable : ∀ sub ∈ subs, Readable cfg (s.state sub.subscriber).owner p.topic

/-- The message that the subscriber at hand gets; `subs` come after it. -/
def Target.Sound (cfg : Config) (s : Server) (p : PublishPacket) (subs : List (Subscription Nat)) : Target → Prop
  | .enqueue o raw => EncodedAs raw (newOutboundPublish p 0) ∧ Readable cfg (s.conns o).identity p.topic ∧
      ∃ a, (s.conns o).active = some a ∧ a.ready = true
  | .close _ => True
  | .admitMessage r t => TemplateOf t (newOutboundPublish p 1) ∧ Readable cfg (s.state r).owner p.topic ∧
      ∃ id : Bytes, s.sessions.data[id]? = some r ∧ ∀ sub ∈ subs, sub.clientID ≠ id

/-- A fan-out has no errors; the retained messages may be full. -/
def PublishStage.Sound (cfg : Config) (s : Server) (p : PublishPacket) : PublishStage → Prop
  | .visiting cache err subs => cache.Holds p ∧ err = none ∧ Subscribers cfg s p subs
  | .delivering cache err target subs => cache.Holds p ∧ err = none ∧ Subscribers cfg s p subs ∧
      target.Sound cfg s p subs
  | .returning err => err = none ∨ err = some errRetainedLimit
  | _ => True

/-- The return codes of a SUBACK so far. -/
def Codes (cfg : Config) (identity : Bytes) (done : List SubscribeEntry) (codes : Bytes) : Prop :=
  List.Forall₂ (fun sub code => code ≠ 0x80 → Granted cfg identity sub.topic code) done codes

/-- The filters of a SUBSCRIBE with their return codes. -/
def Entries (cfg : Config) (identity : Bytes) (entries : List (Bytes × UInt8)) : Prop :=
  ∀ e ∈ entries, e.2 ≠ 0x80 → Granted cfg identity e.1 e.2

/-- A message that the broker retains. -/
structure RetainedMessage (m : PublishPacket) : Prop where
  retain : m.retain = true
  publishable : Publishable m

def Pc.Sound (cfg : Config) (s : Server) (identity : Bytes) : Pc → Prop
  | .subscribing p codes rest => ∃ done, p.subscriptions = done ++ rest ∧ Codes cfg identity done codes
  | .routing p codes f q rest => Granted cfg identity f q ∧ ∃ done sub, p.subscriptions = done ++ sub :: rest ∧
      sub.topic = f ∧ Codes cfg identity done codes
  | .awaiting _ (.suback entries) => Entries cfg identity entries
  | .replaying entries => Entries cfg identity entries
  | .offering msgs code entries => Entries cfg identity entries ∧ code ≤ 1 ∧
      ∀ m ∈ msgs, RetainedMessage m ∧ Readable cfg identity m.topic
  | .publishing _ p stage => canPublish cfg identity p.topic = true ∧ stage.Sound cfg s p
  | _ => True

/-- The places at which a handler owns a session. -/
def Pc.serves : Pc → Bool
  | .connack _ | .readying | .beginning | .serving | .handling _ | .subscribing .. | .routing .. | .replaying _
  | .offering .. | .resuming _ | .unsubscribing .. | .forgetting .. | .publishing .. | .acknowledging _
  | .ending _ => true
  | .awaiting _ .refusal => false
  | .awaiting .. => true
  | _ => false

/-- The places at which a handler has an identity and waits for a session. -/
def Pc.entering : Pc → Bool
  | .acquiring | .takingOver _ | .waitingFor _ => true
  | _ => false

/-- The fan-out itself, which is under the read lock. -/
def PublishStage.visits : PublishStage → Bool
  | .visiting .. | .delivering .. => true
  | _ => false

def Pc.visits : Pc → Bool
  | .publishing _ _ stage => stage.visits
  | _ => false

theorem Pc.reading_of_visits {pc : Pc} (h : pc.visits = true) : pc.reading = true := by
  cases pc with
  | publishing origin p st => cases st <;> first | rfl | cases h
  | _ => cases h

structure Conn.Sound (cfg : Config) (s : Server) (k : Conn) : Prop where
  serves : k.pc.serves = true → k.active ≠ none
  entitled : k.active ≠ none ∨ k.pc.entering = true → Entitled cfg k.identity k.client.id k.connect.will
  owner : ∀ a, k.active = some a → a.session < s.sessions.allocated ∧
    (s.state a.session).owner = k.identity
  place : k.pc.Sound cfg s k.identity
  consumer : k.consumer ≠ .absent → k.active ≠ none
  fetched : ∀ epoch d, k.consumer = .delivering epoch d → ReadableBytes cfg k.identity d.data
  accepted : ∀ raw ∈ k.client.accepted, isPublish raw = true →
    k.active ≠ none ∧ ReadableBytes cfg k.identity raw

/-- What is said above holds of the whole server. -/
structure Server.Sound (cfg : Config) (s : Server) : Prop where
  refines : s.Refines cfg
  accepted : ∀ c, (s.conns c).pc ≠ .handshake → c < s.accepted
  retained : ∀ (name : Bytes) m, s.broker.retained[name]? = some m → m.topic = name ∧ RetainedMessage m
  queues : ∀ r < s.sessions.allocated, ∀ p < (s.state r).allocated,
    ReadableEntry cfg (s.state r).owner ((s.state r).heap p)
  conns : ∀ c, (s.conns c).Sound cfg s

/-! ## What the other goroutines cannot change -/

section Later

variable {cfg : Config} {s s' : Server} {k k' : Conn}

theorem Subscribers.later {p : PublishPacket} {subs : List (Subscription Nat)} (h : Subscribers cfg s p subs)
    (hi : s.sessions.Inv) (hl : Server.Later s s') (hr : ¬ s.Unread) : Subscribers cfg s' p subs := by
  refine ⟨h.unique, h.qos, fun sub hsub => ?_, fun sub hsub => ?_⟩
  · rw [(hl.locked hr).1]
    exact h.stored sub hsub
  · rw [hl.owner _ (hi.stored _ _ (h.stored sub hsub)).1]
    exact h.readable sub hsub

theorem Target.Sound.later {p : PublishPacket} {subs : List (Subscription Nat)} {t : Target}
    (h : t.Sound cfg s p subs) (hi : s.sessions.Inv) (hl : Server.Later s s') (hr : ¬ s.Unread) :
    t.Sound cfg s' p subs := by
  cases t with
  | enqueue o raw =>
    obtain ⟨henc, hread, a, ha, hready⟩ := h
    obtain ⟨a', ha', -, -, -, hready'⟩ := (hl.conns o).owner a ha
    have hid := ((hl.conns o).named (by simp [ha])).1
    exact ⟨henc, hid.symm ▸ hread, a', ha', hready' hready⟩
  | close o => trivial
  | admitMessage r t =>
    obtain ⟨ht, hread, id, hid, hne⟩ := h
    refine ⟨ht, ?_, id, ?_, hne⟩
    · rw [hl.owner _ (hi.stored _ _ hid).1]
      exact hread
    · rw [(hl.locked hr).1]
      exact hid

theorem PublishStage.Sound.later {p : PublishPacket} {st : PublishStage} (h : st.Sound cfg s p)
    (hi : s.sessions.Inv) (hl : Server.Later s s') (hr : st.visits = true → ¬ s.Unread) :
    st.Sound cfg s' p := by
  cases st with
  | visiting cache err subs => exact ⟨h.1, h.2.1, h.2.2.later hi hl (hr rfl)⟩
  | delivering cache err target subs =>
    exact ⟨h.1, h.2.1, h.2.2.1.later hi hl (hr rfl), h.2.2.2.later hi hl (hr rfl)⟩
  | returning err => exact h
  | _ => trivial

theorem Pc.Sound.later {identity : Bytes} {pc : Pc} (h : pc.Sound cfg s identity)
    (hi : s.sessions.Inv) (hl : Server.Later s s') (hr : pc.visits = true → ¬ s.Unread) :
    pc.Sound cfg s' identity := by
  cases pc with
  | publishing origin p st => exact ⟨h.1, PublishStage.Sound.later h.2 hi hl hr⟩
  | awaiting channel reply =>
    cases reply with
    | suback entries => exact h
    | _ => trivial
  | _ => exact h

/-! ## One connection -/

namespace Conn.Sound

theorem later (h : k.Sound cfg s) (hi : s.sessions.Inv) (hl : Server.Later s s')
    (hr : k.pc.visits = true → ¬ s.Unread) : k.Sound cfg s' where
  serves := h.serves
  entitled := h.entitled
  owner a ha := by
    obtain ⟨hlt, ho⟩ := h.owner a ha
    exact ⟨Nat.lt_of_lt_of_le hlt hl.allocated, (hl.owner _ hlt).trans ho⟩
  place := h.place.later hi hl hr
  consumer := h.consumer
  fetched := h.fetched
  accepted := h.accepted

theorem move (h : k.Sound cfg s) {pc : Pc} (hserves : pc.serves = true → k.pc.serves = true)
    (hentering : pc.entering = true → k.pc.entering = true) (hpl : pc.Sound cfg s k.identity) :
    ({ k with pc } : Conn).Sound cfg s where
  serves hp := h.serves (hserves hp)
  entitled hp := h.entitled (hp.imp id hentering)
  owner := h.owner
  place := hpl
  consumer := h.consumer
  fetched := h.fetched
  accepted := h.accepted

theorem client (h : k.Sound cfg s) {client : Client} (hid : client.id = k.client.id)
    (hacc : ∀ raw ∈ client.accepted, raw ∈ k.client.accepted ∨
      (isPublish raw = true → k.active ≠ none ∧ ReadableBytes cfg k.identity raw)) :
    ({ k with client } : Conn).Sound cfg s where
  serves := h.serves
  entitled hp := hid.symm ▸ h.entitled hp
  owner := h.owner
  place := h.place
  consumer := h.consumer
  fetched := h.fetched
  accepted raw hraw hpub := (hacc raw hraw).elim (fun hm => h.accepted raw hm hpub) fun hn => hn hpub

/-- A packet more in the queue, or not. -/
theorem sent (h : k.Sound cfg s) {client : Client} {raw : Bytes} (hid : client.id = k.client.id)
    (hc : client.accepted = k.client.accepted ++ [raw] ∨ client.accepted = k.client.accepted)
    (hraw : isPublish raw = true → k.active ≠ none ∧ ReadableBytes cfg k.identity raw) :
    ({ k with client } : Conn).Sound cfg s := by
  refine h.client hid fun raw' hm => ?_
  rcases hc with e | e <;> rw [e] at hm
  · rcases List.mem_append.mp hm with hm | hm
    · exact .inl hm
    · cases List.mem_singleton.mp hm
      exact .inr hraw
  · exact .inl hm

theorem flag (h : k.Sound cfg s) {g : ActiveConnection → ActiveConnection}
    (hg : ∀ a, (g a).session = a.session) : ({ k with active := k.active.map g } : Conn).Sound cfg s where
  serves hp := by simpa using h.serves hp
  entitled hp := h.entitled (hp.imp (by simp) id)
  owner a ha := by
    obtain ⟨a', ha', rfl⟩ := Option.map_eq_some_iff.mp ha
    rw [hg]
    exact h.owner a' ha'
  place := h.place
  consumer hc := by simpa using h.consumer hc
  fetched := h.fetched
  accepted raw hraw hpub := by simpa using h.accepted raw hraw hpub

theorem setConsumer (h : k.Sound cfg s) (ha : k.active ≠ none) {consumer : Consumer}
    (hd : ∀ epoch d, consumer = .delivering epoch d → ReadableBytes cfg k.identity d.data) :
    ({ k with consumer } : Conn).Sound cfg s where
  serves := h.serves
  entitled := h.entitled
  owner := h.owner
  place := h.place
  consumer _ := ha
  fetched := hd
  accepted := h.accepted

/-- A connection without a session gets its client ID or its identity. -/
theorem name (h : k.Sound cfg s) (ha : k.active = none) (ha' : k'.active = none)
    (hc : k'.consumer = k.consumer) (hacc : ∀ raw ∈ k'.client.accepted, raw ∈ k.client.accepted)
    (hs : k'.pc.serves = false) (hent : k'.pc.entering = true → Entitled cfg k'.identity k'.client.id k'.connect.will)
    (hpl : k'.pc.Sound cfg s k'.identity) : k'.Sound cfg s where
  serves hp := by rw [hs] at hp; cases hp
  entitled hp := hp.elim (fun hn => (hn ha').elim) hent
  owner a hk := by rw [ha'] at hk; cases hk
  place := hpl
  consumer hn := (h.consumer (hc ▸ hn) ha).elim
  fetched epoch d hd := (h.consumer (by rw [← hc, hd]; nofun) ha).elim
  accepted raw hraw hpub := ((h.accepted raw (hacc raw hraw) hpub).1 ha).elim

theorem handshake (h : k.Sound cfg s) (ha : k.active = none) (i : Input) : (k.handshake cfg i).Sound cfg s := by
  obtain e | ⟨connect, -, e⟩ := k.handshake_cases cfg i <;> rw [e]
  · exact h.move nofun nofun trivial
  · exact h.name ha ha rfl (fun _ hraw => nomatch hraw) rfl nofun trivial

theorem sendPacket (h : k.Sound cfg s) (pkt : Packet) {reply : Reply} (hs : reply = .refusal ∨ k.pc.serves = true)
    (hpl : ∀ channel, (Pc.awaiting channel reply).Sound cfg s k.identity) :
    (k.sendPacket pkt reply).Sound cfg s := by
  obtain ⟨client, pc, e, hid, ⟨rfl, hacc, -⟩ | ⟨channel, raw, rfl, henc, hsend⟩⟩ := k.sendPacket_sends pkt reply <;> rw [e]
  · refine (h.client hid fun raw hraw => .inl (hacc ▸ hraw)).move (fun hp => ?_) ?_ ?_
    · exact hs.elim (fun e => by rw [e] at hp; cases hp) id
    · cases reply <;> exact nofun
    · cases reply <;> trivial
  · refine (h.sent hid (.inl (Client.send_ok hsend)) fun hp => ?_).move (fun hp => ?_) nofun (hpl channel)
    · rw [isPublish_encode henc] at hp
      cases hp
    · exact hs.elim (fun e => by rw [e] at hp; cases hp) id

theorem serve (h : k.Sound cfg s) (hs : k.pc.serves = true) (i : Input) : (k.serve cfg i).Sound cfg s := by
  obtain e | ⟨pkt, -, e⟩ := k.serve_cases cfg i <;>
  · rw [e]
    exact h.move (fun _ => hs) nofun trivial

end Conn.Sound

end Later

section Lists

variable {cfg : Config} {s : Server}

theorem Codes.snoc {identity : Bytes} {done : List SubscribeEntry} {codes : Bytes}
    (h : Codes cfg identity done codes) {sub : SubscribeEntry} {code : UInt8}
    (hc : code ≠ 0x80 → Granted cfg identity sub.topic code) :
    Codes cfg identity (done ++ [sub]) (codes ++ [code]) :=
  List.rel_append h (.cons hc .nil)

theorem Codes.entries {identity : Bytes} {done : List SubscribeEntry} {codes : Bytes}
    (h : Codes cfg identity done codes) : Entries cfg identity ((done.map (·.topic)).zip codes) := by
  induction h with
  | nil => exact fun e he => nomatch he
  | cons hc _ ih =>
    rintro e (_ | ⟨_, he⟩)
    · exact hc
    · exact ih e he

theorem Subscribers.tail {p : PublishPacket} {sub : Subscription Nat} {subs : List (Subscription Nat)}
    (h : Subscribers cfg s p (sub :: subs)) : Subscribers cfg s p subs :=
  ⟨(List.nodup_cons.mp h.unique).2, fun x hx => h.qos x (.tail _ hx), fun x hx => h.stored x (.tail _ hx),
    fun x hx => h.readable x (.tail _ hx)⟩

end Lists

namespace Server

variable {cfg : Config} {s s' : Server} {c : Nat} {i : Input} {e : Effect} {f : Conn → Conn}

/-- A publisher that holds the read lock is one of the connections. -/
theorem Sound.not_unread (h : s.Sound cfg) (hr : (s.conns c).pc.reading = true) : ¬ s.Unread := by
  intro hu
  have hc : c < s.accepted := h.accepted c fun e => by rw [e] at hr; cases hr
  rw [hu c hc] at hr
  cases hr

/-! ## The next place of a handler -/

/-- What `Match` returns is stored, and may read the topic. -/
theorem Refines.subscribers (h : s.Refines cfg) {p : PublishPacket} (hp : Publishable p)
    {subs : List (Subscription Nat)} (hm : s.broker.topics.Matches p.topic subs) :
    Subscribers cfg s p subs := by
  have hexact := s.broker.topics.matches_exact h.filters hp.topic hm
  have hroute : ∀ sub ∈ subs, s.sessions.data[sub.clientID]? = some sub.subscriber ∧
      ∃ f, Granted cfg (s.state sub.subscriber).owner f sub.qos ∧ matchFilter f p.topic = true := by
    intro sub hsub
    obtain ⟨f, hl, hmatch⟩ := hexact.entry sub hsub
    exact ⟨(h.reached.inv.carried hl).2, f, h.reached.inv.grantedRoute hl, hmatch⟩
  refine ⟨hexact.unique, fun sub hsub => ?_, fun sub hsub => (hroute sub hsub).1, fun sub hsub => ?_⟩
  · obtain ⟨-, f, hg, -⟩ := hroute sub hsub
    exact hg.qos
  · obtain ⟨-, f, hg, hmatch⟩ := hroute sub hsub
    exact ⟨f, hg.filter, hg.allowed, hmatch⟩

variable (h : s.Sound cfg)

include h

theorem Sound.publishable {origin : Origin} {p : PublishPacket} {st : PublishStage}
    (hpc : (s.conns c).pc = .publishing origin p st) : Publishable p := by
  have := (h.refines.conns c).checked
  rw [hpc] at this
  exact this.publishable

theorem Sound.goes {pc pc' : Pc} (hpc : (s.conns c).pc = pc) (hg : Goes cfg s c i pc pc') :
    pc'.Sound cfg s (s.conns c).identity := by
  have hplace := (h.conns c).place
  rw [hpc] at hplace
  cases hg with
  | publish ha hcan =>
    rw [((h.conns c).owner _ ha).2] at hcan
    exact ⟨hcan, trivial⟩
  | replayed => trivial
  | refusedEntry => exact fun e he => hplace e (.tail _ he)
  | @load filter code entries hcode hr =>
    have hgr : Granted cfg (s.conns c).identity filter code := hplace _ (.head _) hcode
    refine ⟨fun e he => hplace e (.tail _ he), hgr.qos, fun m hm => ?_⟩
    obtain ⟨name, hmatch, hget⟩ := Broker.mem_retainedMatching hm
    obtain ⟨rfl, hret⟩ := h.retained name m hget
    exact ⟨hret, filter, hgr.filter, hgr.allowed, hmatch⟩
  | offered => exact hplace.1
  | lock => exact ⟨hplace.1, trivial⟩
  | pass => exact ⟨hplace.1, trivial⟩
  | matched hm =>
    exact ⟨hplace.1, PublishDeliveryCache.holds_empty _, rfl, h.refines.subscribers (h.publishable hpc) hm⟩
  | visited => exact ⟨hplace.1, .inl hplace.2.2.1⟩
  | skip => exact ⟨hplace.1, hplace.2.1, hplace.2.2.1, hplace.2.2.2.tail⟩
  | failed hout =>
    -- The encoding of an accepted publication does not fail.
    obtain ⟨out, c', hok, -, -⟩ := hplace.2.1.outgoing (h.publishable hpc) (hplace.2.2.2.qos _ (.head _))
    rw [hout] at hok
    cases hok
  | @send origin p cache cache' err sub subs raw o a hst hout ho ha hcl hready hses =>
    obtain ⟨hcan, hcache, herr, hsubs⟩ := hplace
    obtain ⟨out, c', hok, hcache', hfor⟩ := hcache.outgoing (h.publishable hpc) (hsubs.qos _ (.head _))
    rw [hout] at hok
    cases hok
    refine ⟨hcan, hcache', herr, hsubs.tail, hfor.2, ?_, a, ha, hready⟩
    rw [← ((h.conns o).owner a ha).2, hses]
    exact hsubs.readable _ (.head _)
  | @queue origin p cache cache' err sub subs t hst hout =>
    obtain ⟨hcan, hcache, herr, hsubs⟩ := hplace
    obtain ⟨out, c', hok, hcache', hfor⟩ := hcache.outgoing (h.publishable hpc) (hsubs.qos _ (.head _))
    rw [hout] at hok
    cases hok
    refine ⟨hcan, hcache', herr, hsubs.tail, hfor.2, hsubs.readable _ (.head _), _, hst, fun x hx he => ?_⟩
    exact (List.nodup_cons.mp hsubs.unique).1 (List.mem_map.mpr ⟨x, hx, he⟩)
  | @returned origin p err =>
    unfold published
    repeat' split
    all_goals trivial
  | @written channel reply hw =>
    cases reply with
    | suback entries => exact hplace
    | _ => trivial
  | @unwritten channel reply =>
    cases reply <;> trivial
  | will hw =>
    refine ⟨((h.conns c).entitled (.inl ((h.conns c).serves (by rw [hpc]; rfl)))).will _ hw, trivial⟩
  | _ => trivial

/-- A session that a publisher gives its message to accepts the message, or drops it. -/
theorem Sound.admits {origin : Origin} {p : PublishPacket} {cache : PublishDeliveryCache} {err : Option Err}
    {r : Nat} {t : PublishTemplate} {subs : List (Subscription Nat)}
    (hpc : (s.conns c).pc = .publishing origin p (.delivering cache err (.admitMessage r t) subs))
    {now : Time} {result : Except Err (Option DropReason)} {res : State × Snapshot}
    (hres : (s.state r).admitMessage s.sessions.limits now t.raw t.packetIDOffset s.sessions.totals =
      (result, res)) : ∃ reason, result = .ok reason := by
  have hplace := (h.conns c).place
  rw [hpc] at hplace
  obtain ⟨-, -, -, -, ht, -, id, hid, -⟩ := hplace
  exact ht.admits (h.refines.store.stored id r hid).2.2 hres

theorem Sound.calls {a : ActiveConnection} {pc pc' : Pc} {op : StateOp} (hpc : (s.conns c).pc = pc)
    (ha : (s.conns c).active = some a) (hcall : Calls cfg s i a.session pc op pc') :
    pc'.Sound cfg s (s.conns c).identity := by
  have hplace := (h.conns c).place
  have hcheck := (h.refines.conns c).checked
  rw [hpc] at hplace hcheck
  cases hcall with
  | pause => exact ⟨[], rfl, .nil⟩
  | @refused p codes sub =>
    obtain ⟨done, hdone, hcodes⟩ := hplace
    exact ⟨done ++ [sub], by simp [hdone], hcodes.snoc fun hne => (hne rfl).elim⟩
  | @subscribe p codes sub rest hallowed =>
    obtain ⟨done, hdone, hcodes⟩ := hplace
    rw [((h.conns c).owner a ha).2] at hallowed
    have hle : (if sub.qos > 1 then 1 else sub.qos) ≤ 1 := by
      split
      · exact UInt8.le_refl 1
      · exact UInt8.not_lt.mp ‹_›
    exact ⟨⟨hcheck sub (.head _), hle, hallowed⟩, done, sub, hdone, rfl, hcodes⟩
  | offer => exact ⟨hplace.1, hplace.2.1, fun m hm => hplace.2.2 m (.tail _ hm)⟩
  | @resume ok => cases ok <;> trivial
  | _ => trivial

theorem Sound.awaiting {pc : Pc} {pkt : Packet} {reply : Reply} (hpc : (s.conns c).pc = pc)
    (hsend : Sends pc pkt reply) (channel : Nat) :
    (Pc.awaiting channel reply).Sound cfg s (s.conns c).identity := by
  have hplace := (h.conns c).place
  rw [hpc] at hplace
  cases hsend with
  | subAck =>
    obtain ⟨done, hdone, hcodes⟩ := hplace
    rw [List.append_nil] at hdone
    rw [hdone]
    exact hcodes.entries
  | _ => trivial

theorem Sound.place (ht : Turn cfg s c i e f) :
    (f ((e.apply c s).conns c)).pc.Sound cfg s (f ((e.apply c s).conns c)).identity := by
  have hplace := (h.conns c).place
  have hid : ((e.apply c s).conns c).identity = (s.conns c).identity := (e.peer c s c).identity
  cases ht with
  | goes hpc hg => exact h.goes hpc hg
  | handshake =>
    obtain e | ⟨_, -, e⟩ := (s.conns c).handshake_cases cfg i <;>
    · show Pc.Sound cfg s _ ((s.conns c).handshake cfg i).pc
      rw [e]
      trivial
  | @reject code _ _ hpc =>
    obtain ⟨client, pc, e, -, ⟨rfl, -⟩ | ⟨_, _, rfl, -⟩⟩ :=
      (s.conns c).sendPacket_sends (.connAck ⟨false, code⟩) .refusal <;>
    · show Pc.Sound cfg s _ ((s.conns c).sendPacket _ _).pc
      rw [e]
      trivial
  | denied hpc hcase =>
    rw [hpc] at hplace
    obtain ⟨pkt, -, rfl⟩ | ⟨p, codes, sub, rest, rfl, rfl⟩ := hcase
    · trivial
    · obtain ⟨done, hdone, hcodes⟩ := hplace
      exact ⟨done ++ [sub], by simp [hdone], hcodes.snoc fun hne => (hne rfl).elim⟩
  | unopened =>
    dsimp only
    split <;> trivial
  | @sends pc pkt reply hpc hsend =>
    obtain ⟨client, pc, e, -, ⟨rfl, -⟩ | ⟨channel, _, rfl, -⟩⟩ := (s.conns c).sendPacket_sends pkt reply
    all_goals
      show Pc.Sound cfg s ((s.conns c).sendPacket pkt reply).identity ((s.conns c).sendPacket pkt reply).pc
      rw [e]
    · cases reply <;> trivial
    · exact h.awaiting hpc hsend channel
  | serve =>
    obtain e | ⟨_, -, e⟩ := (s.conns c).serve_cases cfg i <;>
    · show Pc.Sound cfg s _ ((s.conns c).serve cfg i).pc
      rw [e]
      trivial
  | calls hpc ha hcall => exact h.calls hpc ha hcall
  | route hpc ha =>
    rw [hpc] at hplace
    obtain ⟨hg, done, sub, hdone, rfl, hcodes⟩ := hplace
    exact ⟨done ++ [sub], by simp [hdone], hcodes.snoc fun _ => hg⟩
  | offer hpc _ _ _ hcase =>
    rw [hpc] at hplace
    obtain rfl | rfl := hcase
    · exact ⟨hplace.1, hplace.2.1, fun m hm => hplace.2.2 m (.tail _ hm)⟩
    · trivial
  | @retain origin p hpc hr =>
    rw [hpc] at hplace
    refine ⟨hplace.1, ?_⟩
    rcases hu : s.broker.updateRetained p with ⟨res, b⟩
    obtain ⟨-, ⟨rfl, -⟩ | ⟨rfl, -⟩⟩ := Broker.updateRetained_cases hu
    · exact .inr rfl
    · trivial
  | @enqueue origin p cache err o raw subs hpc =>
    rw [hpc] at hplace
    obtain ⟨hcan, hcache, herr, hsubs, -⟩ := hplace
    show Pc.Sound cfg s (((Effect.enqueue o raw).apply c s).conns c).identity _
    rw [hid]
    refine ⟨hcan, ?_⟩
    cases ((s.conns o).client.enqueue raw).1
    · exact ⟨hcache, herr, hsubs, trivial⟩
    · exact ⟨hcache, herr, hsubs⟩
  | @close origin p cache err o subs hpc =>
    rw [hpc] at hplace
    obtain ⟨hcan, hcache, herr, hsubs, -⟩ := hplace
    show Pc.Sound cfg s (((Effect.close o).apply c s).conns c).identity _
    rw [hid]
    exact ⟨hcan, hcache, herr, hsubs⟩
  | admission hpc hres =>
    obtain ⟨reason, rfl⟩ := h.admits hpc hres
    rw [hpc] at hplace
    obtain ⟨hcan, hcache, herr, hsubs, -⟩ := hplace
    exact ⟨hcan, hcache, herr, hsubs⟩
  | _ => trivial

omit h in
theorem Goes.serves {pc pc' : Pc} (hg : Goes cfg s c i pc pc') : pc'.serves = true → pc.serves = true := by
  cases hg with
  | @returned origin => cases origin <;> exact fun _ => rfl
  | @written channel reply => cases reply <;> first | exact fun _ => rfl | exact nofun
  | @unwritten channel reply => cases reply <;> first | exact fun _ => rfl | exact nofun
  | _ => first | exact fun _ => rfl | exact nofun

omit h in
theorem Goes.entering {pc pc' : Pc} (hg : Goes cfg s c i pc pc') : pc'.entering = true → pc.entering = true := by
  cases hg with
  | @returned origin p err =>
    unfold published
    repeat' split
    all_goals exact nofun
  | @written channel reply => cases reply <;> exact nofun
  | @unwritten channel reply => cases reply <;> exact nofun
  | _ => first | exact fun _ => rfl | exact nofun

/-- The effect of a section on any of the connections. -/
theorem Sound.effect (ht : Turn cfg s c i e f) (o : Nat) : ((e.apply c s).conns o).Sound cfg s := by
  have hset : ∀ (o' : Nat) (g : Conn → Conn), (g (s.conns o')).Sound cfg s →
      ((s.setConn o' g).conns o).Sound cfg s := by
    intro o' g hg
    rw [conns_setConn]
    split
    · exact hg
    · exact h.conns o
  have hclose : ∀ o', ((s.setConn o' fun k => { k with client := k.client.close }).conns o).Sound cfg s :=
    fun o' => hset o' _ ((h.conns o').client rfl fun _ hraw => .inl hraw)
  cases ht with
  | @takeOver previous =>
    have hflag := (h.conns previous).flag fun a => (Conn.beginClosing_keeps i.now a).2
    exact hset previous (fun k => { k with active := k.active.map (·.beginClosing i.now) }) hflag
  | closePrevious => exact hclose _
  | close => exact hclose _
  | @enqueue origin p cache err o' raw subs hpc =>
    have hplace := (h.conns c).place
    rw [hpc] at hplace
    obtain ⟨-, -, -, -, henc, hread, a, ha, -⟩ := hplace
    refine hset o' (fun k => { k with client := (k.client.enqueue raw).2 }) ?_
    exact (h.conns o').sent (Client.enqueue_id _ raw) (Client.enqueue_cases _ raw) fun _ =>
      ⟨by simp [ha], _, henc, hread⟩
  | _ =>
    rw [Effect.conns_eq rfl]
    exact h.conns o

/-- The session of a connection that acquires one is its own. -/
theorem Sound.acquired {r : Nat} {present : Bool} (hc : s.clients[(s.conns c).client.id]? = none)
    (ho : (s.openSession (s.conns c).connect (s.conns c).identity i).1 = .ok (r, present)) :
    (((Effect.acquire i r).apply c s).state r).owner = (s.conns c).identity := by
  rcases he : s.openSession (s.conns c).connect (s.conns c).identity i with ⟨res, s₁⟩
  rw [he] at ho
  obtain ⟨-, -, -, hres⟩ := h.refines.openSession ((h.refines.conns c).named ▸ hc) he
  have howner := (hres r present ho).2
  obtain ⟨b, o, e⟩ := (s₁.state r).markConnected_state
  show (Function.update (s.openSession _ _ i).2.sessions.states r _ r).owner = _
  rw [Function.update_self, he]
  show (s₁.state r).markConnected.owner = _
  rw [e]
  exact howner

omit h in
/-- A handler that fans out held the read lock before. -/
theorem Leads.visits {pc pc' : Pc} (hl : Leads pc pc') (hv : pc'.visits = true) : pc.reading = true := by
  cases hl with
  | fanOut hread | deliver hread => exact hread
  | @written channel reply => cases reply <;> cases hv
  | @unwritten channel reply => cases reply <;> cases hv
  | _ => cases hv

/-- What becomes of the connection itself. -/
theorem Sound.own (ht : Turn cfg s c i e f) (hr' : ((e.apply c s).setConn c f).Refines cfg) :
    (f ((e.apply c s).conns c)).Sound cfg ((e.apply c s).setConn c f) := by
  have hl : Later s ((e.apply c s).setConn c f) := .of_turn (ht.touches h.refines).later (ht.own h.refines)
  have hk := h.effect ht c
  have hplace := h.place ht
  have hpeer := e.peer c s c
  have hvisits := fun hv => h.not_unread (ht.leads.visits hv)
  have hnone : ∀ {pc}, (s.conns c).pc = pc → pc.early = true → (s.conns c).active = none :=
    fun hpc he => (h.refines.conns c).early (hpc ▸ he)
  -- Everything but the place is as before, or was looked at already.
  have hmove : ∀ (k : Conn) (pc' : Pc), k.Sound cfg s → k.pc = (s.conns c).pc →
      (pc'.serves = true → (s.conns c).pc.serves = true) →
      (pc'.entering = true → (s.conns c).pc.entering = true) →
      pc'.Sound cfg s k.identity → (pc'.visits = true → ¬ s.Unread) →
      ({ k with pc := pc' } : Conn).Sound cfg ((e.apply c s).setConn c f) :=
    fun k pc' hk hpc hs he hp hv =>
      (hk.move (hpc.symm ▸ hs) (hpc.symm ▸ he) hp).later h.refines.store hl hv
  cases ht with
  | goes hpc hg => exact hmove _ _ hk hpeer.pc (hpc ▸ hg.serves) (hpc ▸ hg.entering) hplace hvisits
  | handshake hpc => exact ((h.conns c).handshake (hnone hpc rfl) i).later h.refines.store hl hvisits
  | authenticated hpc hauth =>
    have ha := hnone hpc rfl
    have hent := authenticateConnect_accepted hauth
    rw [(h.refines.conns c).named] at hent
    refine Conn.Sound.later ?_ h.refines.store hl hvisits
    exact (h.conns c).name ha ha rfl (fun _ hraw => hraw) rfl (fun _ => hent) trivial
  | reject hpc =>
    exact ((h.conns c).sendPacket _ (.inl rfl) fun _ => trivial).later h.refines.store hl hvisits
  | denied hpc hcase =>
    refine hmove _ _ hk hpeer.pc ?_ ?_ hplace hvisits
    all_goals
      rw [hpc]
      obtain ⟨pkt, rfl, rfl⟩ | ⟨p, codes, sub, rest, rfl, rfl⟩ := hcase
    · exact fun _ => rfl
    · exact fun _ => rfl
    · exact nofun
    · exact nofun
  | takeOver hpc => exact hmove _ _ hk hpeer.pc nofun (fun _ => by rw [hpc]; rfl) hplace hvisits
  | unopened hpc =>
    refine hmove _ _ hk hpeer.pc ?_ ?_ hplace hvisits <;> split <;> exact nofun
  | @acquire r present hpc hu howner hc ho =>
    have hconns : ((Effect.acquire i r).apply c s).conns c = s.conns c := by rw [Effect.conns_eq rfl]
    rw [hconns] at hk hplace ⊢
    have ha := hnone hpc rfl
    refine ⟨fun _ => nofun, fun _ => hk.entitled (.inr (by rw [hpc]; rfl)), fun a' ha' => ?_, trivial,
      fun _ => nofun, fun epoch d hd => (hk.consumer (by rw [hd]; nofun) ha).elim,
      fun raw hraw hp => ((hk.accepted raw hraw hp).1 ha).elim⟩
    cases ha'
    refine ⟨?_, h.acquired hc ho⟩
    refine (hr'.conns c).session ⟨r, (s.conns c).connect.cleanSession, false, false, 0, false⟩ ?_
    rw [conns_setConn, if_pos rfl, hconns]
  | closePrevious hpc => exact hmove _ _ hk hpeer.pc nofun (fun _ => by rw [hpc]; rfl) hplace hvisits
  | sends hpc hsend =>
    have hserves : (s.conns c).pc.serves = true := by
      rw [hpc]
      cases hsend <;> rfl
    exact ((h.conns c).sendPacket _ (.inr hserves) (h.awaiting hpc hsend)).later h.refines.store hl hvisits
  | ready hpc =>
    exact hmove { s.conns c with active := (s.conns c).active.map ({ · with ready := true }) } _
      (hk.flag fun _ => rfl) rfl (fun _ => by rw [hpc]; rfl) nofun trivial nofun
  | @begin a hpc ha =>
    exact hmove { s.conns c with consumer := .polling (s.state a.session).beginDelivery.1 } _
      ((h.conns c).setConsumer (by simp [ha]) nofun) rfl (fun _ => by rw [hpc]; rfl) nofun trivial nofun
  | serve hpc => exact ((h.conns c).serve (by rw [hpc]; rfl) i).later h.refines.store hl hvisits
  | calls hpc ha hcall =>
    refine hmove _ _ hk hpeer.pc (fun _ => ?_) ?_ hplace hvisits
    · rw [hpc]
      cases hcall <;> rfl
    · cases hcall with
      | @resume ok => cases ok <;> exact nofun
      | _ => exact nofun
  | route hpc => exact hmove _ _ hk hpeer.pc (fun _ => by rw [hpc]; rfl) nofun hplace hvisits
  | unroute hpc => exact hmove _ _ hk hpeer.pc (fun _ => by rw [hpc]; rfl) nofun hplace hvisits
  | offer hpc ha hq hraw hcase =>
    have hpl := (h.conns c).place
    rw [hpc] at hpl
    obtain ⟨-, -, hmsgs⟩ := hpl
    obtain ⟨henc, rfl⟩ := (encodePublishPacket_iff _ _).mp hraw
    have hsent := (h.conns c).sent (Client.enqueue_id (s.conns c).client _) (Client.enqueue_cases _ _) fun _ =>
      ⟨ha, _, henc.encodedAs fun _ => rfl, (hmsgs _ (.head _)).2⟩
    exact hmove _ _ hsent rfl (fun _ => by rw [hpc]; rfl) (by obtain rfl | rfl := hcase <;> exact nofun) hplace hvisits
  | retain hpc => exact hmove _ _ hk hpeer.pc (fun _ => by rw [hpc]; rfl) nofun hplace hvisits
  | enqueue hpc => exact hmove _ _ hk hpeer.pc (fun _ => by rw [hpc]; rfl) nofun hplace hvisits
  | close hpc => exact hmove _ _ hk hpeer.pc (fun _ => by rw [hpc]; rfl) nofun hplace hvisits
  | admission hpc => exact hmove _ _ hk hpeer.pc (fun _ => by rw [hpc]; rfl) nofun hplace hvisits
  | beginClosing hpc =>
    exact hmove { s.conns c with active := (s.conns c).active.map (·.beginClosing i.now) } _
      (hk.flag fun a => (Conn.beginClosing_keeps i.now a).2) rfl nofun nofun trivial nofun
  | closeClient hpc =>
    exact hmove { s.conns c with client := (s.conns c).client.close } _
      ((h.conns c).client rfl fun _ hraw => .inl hraw) rfl nofun nofun trivial nofun
  | @release a hpc hu ha =>
    have hconns : ((Effect.release a).apply c s).conns c = s.conns c := by rw [Effect.conns_eq rfl]
    rw [hconns]
    have hflag := (h.conns c).flag (g := fun b => { b with done := true }) fun _ => rfl
    rw [ha] at hflag
    exact hmove { s.conns c with active := some { a with done := true } } _ hflag rfl nofun nofun trivial nofun

/-! ## Every step -/

/-- What `Next` returns to the consumer of a connection. -/
theorem Sound.next {a : ActiveConnection} (ha : (s.conns c).active = some a) {epoch : UInt64} {d : Delivery}
    {res : State × Snapshot}
    (hn : (s.state a.session).next s.sessions.limits epoch s.sessions.totals = some (some d, res)) :
    ReadableBytes cfg (s.conns c).identity d.data := by
  obtain ⟨hlt, howner⟩ := (h.conns c).owner a ha
  obtain ⟨hd, -⟩ | ⟨-, p, hsel, -⟩ := State.next_cases hn
  · cases hd
  have hp := (h.refines.store.accounts a.session).pointers.bound p (State.select_mem hsel).1
  obtain ⟨m, ht, hread⟩ := h.queues a.session hlt p hp
  obtain ⟨entry, dup, rfl, hid, hdata, hoff⟩ := next_delivery hn hsel
  exact ⟨_, ht.patched entry dup hdata hoff hid, howner ▸ hread⟩

theorem Sound.consumer (ht : ConsumerTurn s c e f) :
    (f ((e.apply c s).conns c)).Sound cfg ((e.apply c s).setConn c f) := by
  have hl : Later s ((e.apply c s).setConn c f) := .of_turn (ht.touches h.refines).later ht.own
  have hk := h.conns c
  have hlater : ∀ k : Conn, k.Sound cfg s → k.pc = (s.conns c).pc →
      k.Sound cfg ((e.apply c s).setConn c f) := fun k hk hpc =>
    hk.later h.refines.store hl fun hv => h.not_unread (c := c) (Pc.reading_of_visits (hpc ▸ hv))
  have hactive : (s.conns c).active ≠ none := hk.consumer ht.started
  cases ht with
  | poll hc => exact hlater _ (hk.setConsumer hactive nofun) rfl
  | leave hc => exact hlater _ (hk.setConsumer hactive nofun) rfl
  | @next epoch a d res hc ha hn =>
    refine hlater _ (hk.setConsumer hactive fun epoch' d' hd => ?_) rfl
    cases d with
    | none => cases hd
    | some d =>
      cases hd
      exact h.next ha hn
  | @send epoch d hc =>
    have hraw := hk.fetched epoch d hc
    have hsent : ({ s.conns c with client := ((s.conns c).client.send d.data).2 } : Conn).Sound cfg s := by
      refine hk.sent (Client.send_id _ d.data) ?_ fun _ => ⟨hactive, hraw⟩
      obtain ⟨-, ⟨-, e⟩ | ⟨-, e⟩⟩ := Client.send_cases (rfl : (s.conns c).client.send d.data = _)
      · exact .inl e
      · exact .inr e
    refine hlater _ (hsent.setConsumer hactive fun epoch' d' hd => ?_) rfl
    split at hd <;> cases hd
  | sent hc hcase =>
    refine hlater _ (hk.setConsumer hactive ?_) rfl
    obtain rfl | rfl := hcase <;> exact nofun
  | fail hc =>
    have hclosed : ({ s.conns c with client := (s.conns c).client.close } : Conn).Sound cfg s :=
      hk.client rfl fun _ hraw => .inl hraw
    exact hlater _ (hclosed.setConsumer hactive nofun) rfl
  | wake hc => exact hlater _ (hk.setConsumer hactive nofun) rfl

/-- What a handler admits to a session, its owner may read. -/
theorem Sound.admitted (ht : Turn cfg s c i e f) {r : Nat} {now : Time} {data : Bytes} {off : Int}
    {res : State × Snapshot} (he : e = .call r (.admitMessage now data off) res) :
    ∃ m, TemplateOf ⟨data, off⟩ (newOutboundPublish m 1) ∧ Readable cfg (s.state r).owner m.topic := by
  have hplace := (h.conns c).place
  have hoffer : ∀ {a : ActiveConnection} {m : PublishPacket} {rest : List PublishPacket} {code : UInt8}
      {entries : List (Bytes × UInt8)} {t : PublishTemplate}, (s.conns c).active = some a →
      (s.conns c).pc = .offering (m :: rest) code entries → deliveryQoS m.qos code = 1 →
      newPublishTemplate (newOutboundPublish m 1) = .ok t →
      ∃ m, TemplateOf t (newOutboundPublish m 1) ∧ Readable cfg (s.state a.session).owner m.topic := by
    intro a m rest code entries t ha hpc hq ht
    rw [hpc] at hplace
    obtain ⟨hret, hread⟩ := hplace.2.2 m (.head _)
    obtain ⟨t', ht', hspec⟩ := newPublishTemplate_spec hret.publishable (hq ▸ (deliveryQoS_le m.qos code).1)
    cases ht.symm.trans ht'
    exact ⟨m, hspec, ((h.conns c).owner a ha).2.symm ▸ hread⟩
  cases ht with
  | calls hpc ha hcall hop =>
    cases he
    cases hcall with
    | offer hq ht => exact hoffer ha hpc hq ht
    | offerFails hq ht => exact hoffer ha hpc hq ht
  | admission hpc hres =>
    cases he
    rw [hpc] at hplace
    obtain ⟨-, -, -, -, ht, hread, -⟩ := hplace
    exact ⟨_, ht, hread⟩
  | _ => cases he

omit h in
theorem ConsumerTurn.not_admits (ht : ConsumerTurn s c e f) {r : Nat} {now : Time} {data : Bytes} {off : Int}
    {res : State × Snapshot} : e ≠ .call r (.admitMessage now data off) res := by
  cases ht <;> exact nofun

/-- The queues after a section that admits only what owners may read. -/
theorem Sound.queues_apply (ht : s.Touches c e)
    (hadm : ∀ r now data off res, e = .call r (.admitMessage now data off) res →
      ∃ m, TemplateOf ⟨data, off⟩ (newOutboundPublish m 1) ∧ Readable cfg (s.state r).owner m.topic)
    (r : Nat) (hr : r < (e.apply c s).sessions.allocated) (p : Nat) (hp : p < ((e.apply c s).state r).allocated) :
    ReadableEntry cfg ((e.apply c s).state r).owner (((e.apply c s).state r).heap p) := by
  have hl := ht.later
  obtain ⟨hlt, hp'⟩ | ⟨now, data, off, res, rfl, rfl, ha⟩ := ht.entry hr hp
  · obtain ⟨m, htm, hread⟩ := h.queues r hlt p hp'
    refine ⟨m, ?_, hl.owner r hlt ▸ hread⟩
    rw [(hl.keeps r hlt).data p hp', (hl.keeps r hlt).offset p hp']
    exact htm
  · obtain ⟨m, htm, hread⟩ := hadm r now data off res rfl
    obtain ⟨-, -, _, he, -⟩ | ⟨-, -, ⟨d, -, he, -⟩ | ⟨-, -, hs, -⟩⟩ := State.admit_cases ha
    · cases he
    · cases he
    · have hstate : ((Effect.call r (.admitMessage now data off) res).apply c s).state r = res.1 :=
        (state_setSession s r r res).trans (if_pos rfl)
      rw [hstate, hs]
      refine ⟨m, ?_, hread⟩
      simp only [State.append, State.notifyLocked, Function.update_self]
      exact htm

theorem Sound.retained_apply (ht : Turn cfg s c i e f) (name : Bytes) (m : PublishPacket)
    (hm : (e.apply c s).broker.retained[name]? = some m) : m.topic = name ∧ RetainedMessage m := by
  by_cases hret : ∃ p, e = .retain p
  · obtain ⟨p, rfl⟩ := hret
    have hp : Publishable p := by
      cases ht with
      | retain hpc => exact h.publishable hpc
    rcases hu : s.broker.updateRetained p with ⟨res, b⟩
    rw [Effect.apply, hu] at hm
    obtain ⟨-, ⟨-, e⟩ | ⟨-, hget⟩⟩ := Broker.updateRetained_cases hu
    · exact h.retained name m (e ▸ hm)
    · rw [hget name] at hm
      split at hm
      · rename_i hname
        split at hm <;> cases hm
        exact ⟨hname, rfl, hp.topic, hp.size⟩
      · exact h.retained name m hm
  · rw [Effect.retained_eq (fun p hp => hret ⟨p, hp⟩)] at hm
    exact h.retained name m hm

/-- The server after a section, from its parts. -/
theorem Sound.of_turn (hc : c < s.accepted) (ht : s.Touches c e) (hr' : ((e.apply c s).setConn c f).Refines cfg)
    (hl : Later s ((e.apply c s).setConn c f))
    (hret : ∀ (name : Bytes) m, (e.apply c s).broker.retained[name]? = some m → m.topic = name ∧ RetainedMessage m)
    (hadm : ∀ r now data off res, e = .call r (.admitMessage now data off) res →
      ∃ m, TemplateOf ⟨data, off⟩ (newOutboundPublish m 1) ∧ Readable cfg (s.state r).owner m.topic)
    (heffect : ∀ o, ((e.apply c s).conns o).Sound cfg s)
    (hown : (f ((e.apply c s).conns c)).Sound cfg ((e.apply c s).setConn c f)) :
    ((e.apply c s).setConn c f).Sound cfg := by
  refine ⟨hr', fun c' hc' => ?_, hret, h.queues_apply ht hadm, fun c' => ?_⟩
  · show c' < (e.apply c s).accepted
    rw [conns_setConn] at hc'
    rw [e.accepted]
    split at hc'
    · rename_i e
      exact e ▸ hc
    · exact h.accepted c' ((e.peer c s c').pc ▸ hc')
  · rw [conns_setConn]
    split
    · exact hown
    · refine (heffect c').later h.refines.store hl fun hv => h.not_unread (c := c') (Pc.reading_of_visits ?_)
      exact (e.peer c s c').pc ▸ hv

/-- The writer of a connection does not look at the messages. -/
theorem Sound.writer (hc : c < s.accepted) {client : Client} (hid : client.id = (s.conns c).client.id)
    (hacc : client.accepted = (s.conns c).client.accepted)
    (hr' : (s.setConn c ({ · with client })).Refines cfg) : (s.setConn c ({ · with client })).Sound cfg := by
  have hl : Later s (s.setConn c ({ · with client })) := .of_client hid hacc.symm
  have hown : ({ s.conns c with client } : Conn).Sound cfg (s.setConn c ({ · with client })) :=
    ((h.conns c).client hid fun raw hraw => .inl (hacc ▸ hraw)).later h.refines.store hl fun hv =>
      h.not_unread (c := c) (Pc.reading_of_visits hv)
  exact h.of_turn (e := .idle) hc (.nothing rfl rfl) hr' hl h.retained (fun _ _ _ _ _ he => nomatch he)
    h.conns hown

/-- **Messages are where they may be**, after every step. -/
theorem Sound.step {a : Action} (hs : s.step cfg a = some s') : s'.Sound cfg := by
  have hr' := h.refines.step hs
  have hl := step_later h.refines hs
  have hsame : ∀ o, (s.conns o).Sound cfg s' := fun o =>
    (h.conns o).later h.refines.store hl fun hv => h.not_unread (c := o) (Pc.reading_of_visits hv)
  cases step_moves h.refines hs with
  | accept =>
    exact ⟨hr', fun c hc => Nat.lt_succ_of_lt (h.accepted c hc), h.retained, h.queues, hsame⟩
  | handler hc ht =>
    exact h.of_turn hc (ht.touches h.refines) hr' hl (h.retained_apply ht)
      (fun r now data off res he => h.admitted ht he) (h.effect ht) (h.own ht hr')
  | @consumer c i e f hc ht =>
    have htarget : e.target = none := by cases ht <;> rfl
    have hret : ∀ p, e ≠ .retain p := by cases ht <;> exact nofun
    refine h.of_turn hc (ht.touches h.refines) hr' hl ?_ (fun r now data off res he => (ht.not_admits he).elim)
      (fun o => ?_) (h.consumer ht)
    · rw [Effect.retained_eq hret]
      exact h.retained
    · rw [Effect.conns_eq htarget]
      exact h.conns o
  | write hc hw => exact h.writer hc (Client.writeNext_keeps hw).1 (Client.writeNext_keeps hw).2 hr'
  | writerExit hc hw => exact h.writer hc (Client.writerExit_keeps hw).1 (Client.writerExit_keeps hw).2 hr'
  | @sweep now order hu hr =>
    have ht : s.sessions.Turnover (s.sweep now order).sessions := .expire _ _ _
    refine ⟨hr', h.accepted, fun name m hm => ?_, fun r hlt p hp => ?_, hsame⟩
    · have e : (s.sweep now order).broker.retained = s.broker.retained := Broker.unsubscribesAll_retained _ _
      exact h.retained name m (e ▸ hm)
    · by_cases hold : r < s.sessions.allocated
      · have hk := ht.kept r hold
        have hp' : p < (s.state r).allocated := hk.allocated ▸ hp
        rw [show ((s.sweep now order).state r).owner = _ from hk.owner,
          show ((s.sweep now order).state r).heap = _ from hk.heap]
        exact h.queues r hold p hp'
      · have h0 : ((s.sweep now order).state r).allocated = 0 := (ht.fresh r (Nat.not_lt.mp hold) hlt).1
        omega

omit h

theorem Sound.init {broker : Broker} {sessions : Store} {retainedLimits : RetainedLimits} {limits : Limits}
    (hb : Broker.newWithLimits retainedLimits = .ok broker) (hst : Store.newWithLimits limits = .ok sessions) :
    Sound cfg { broker, sessions } := by
  have hr : Refines cfg { broker, sessions } := Refines.init hb hst
  obtain ⟨hl, rfl⟩ := newWithLimits_ok hst
  obtain rfl : broker = { limits := retainedLimits } := by
    obtain ⟨-, -, h⟩ := except_bind_ok_iff.mp hb
    cases h
    rfl
  refine ⟨hr, fun c hc => (hc rfl).elim, fun name m hm => by simp at hm,
    fun r hr => (Nat.not_lt_zero r hr).elim, fun c => ?_⟩
  exact ⟨nofun, fun h => (h.elim (fun hn => hn rfl) nofun).elim, nofun, trivial, fun hn => (hn rfl).elim, nofun,
    fun raw hraw => nomatch hraw⟩

theorem Reachable.sound (h : Reachable cfg s) : s.Sound cfg := by
  obtain ⟨broker, sessions, retainedLimits, limits, acts, hb, hst, hrun⟩ := h
  exact Sys.run_invariant (Sound.init hb hst) (fun _ _ _ hi hs => hi.step hs) hrun

/-! ## Runs with a history -/

section Recorded

variable {γ : Type} {note : Server → Action → γ → γ} {g₀ g : γ}

/-- A reachable server, and what a history variable says about the run that led to it. -/
def Recorded (cfg : Config) (note : Server → Action → γ → γ) (g₀ : γ) (s : Server) (g : γ) : Prop :=
  ∃ broker sessions retainedLimits limits acts, Broker.newWithLimits retainedLimits = .ok broker ∧
    Store.newWithLimits limits = .ok sessions ∧
    Sys.run (Sys.record (step cfg) note) ({ broker, sessions }, g₀) acts = some (s, g)

theorem Recorded.reachable (h : Recorded cfg note g₀ s g) : Reachable cfg s := by
  obtain ⟨broker, sessions, retainedLimits, limits, acts, hb, hst, hrun⟩ := h
  exact ⟨broker, sessions, retainedLimits, limits, acts, hb, hst, Sys.run_of_record hrun⟩

/-- Every run has a history. -/
theorem Reachable.recorded (h : Reachable cfg s) (note : Server → Action → γ → γ) (g₀ : γ) :
    ∃ g, Recorded cfg note g₀ s g := by
  obtain ⟨broker, sessions, retainedLimits, limits, acts, hb, hst, hrun⟩ := h
  obtain ⟨g, hg⟩ := Sys.run_record hrun g₀
  exact ⟨g, broker, sessions, retainedLimits, limits, acts, hb, hst, hg⟩

theorem Recorded.after (h : Recorded cfg note g₀ s g) {a : Action} (hs : s.step cfg a = some s') :
    Recorded cfg note g₀ s' (note s a g) := by
  obtain ⟨broker, sessions, retainedLimits, limits, acts, hb, hst, hrun⟩ := h
  exact ⟨broker, sessions, retainedLimits, limits, acts ++ [a], hb, hst,
    Sys.run_trans hrun (Sys.run_singleton (Sys.record_eq_some.mpr ⟨hs, rfl⟩))⟩

/-- What holds at the start and is kept by every step holds of every run. -/
theorem Recorded.invariant {I : Server → γ → Prop} (h : Recorded cfg note g₀ s g)
    (init : ∀ retainedLimits limits, I { broker := { limits := retainedLimits }, sessions := { limits } } g₀)
    (keep : ∀ s g a s', Recorded cfg note g₀ s g → I s g → s.step cfg a = some s' → I s' (note s a g)) : I s g := by
  obtain ⟨broker, sessions, retainedLimits, limits, acts, hb, hst, hrun⟩ := h
  have hstart : I { broker, sessions } g₀ := by
    obtain ⟨-, rfl⟩ := newWithLimits_ok hst
    obtain ⟨-, -, hok⟩ := except_bind_ok_iff.mp hb
    cases hok
    exact init retainedLimits limits
  refine Sys.run_history (I := fun _ x => I x.1 x.2) hstart ?_ hrun
  rintro acts ⟨s, g⟩ a ⟨s', g'⟩ hrun hi hrecord
  obtain ⟨hstep, hg⟩ := Sys.record_eq_some.mp hrecord
  subst hg
  exact keep s g a s' ⟨broker, sessions, retainedLimits, limits, acts, hb, hst, hrun⟩ hi hstep

/-- A history variable for every connection, which follows the sections of its handler. -/
def noteHandler (cfg : Config) (follow : Server → Server → Nat → γ → γ) (s : Server) (a : Action) (g : Nat → γ) :
    Nat → γ :=
  match a, s.step cfg a with
  | .handler c _, some s' => Function.update g c (follow s s' c (g c))
  | _, _ => g

/-- The sections of the handler keep what holds of its history, and so do the steps of all others. -/
theorem Recorded.handler_history {follow : Server → Server → Nat → γ → γ} {g₀ : γ} {g : Nat → γ}
    (h : Recorded cfg (noteHandler cfg follow) (fun _ => g₀) s g) (c : Nat) {I : Server → γ → Prop}
    (init : ∀ retainedLimits limits, I { broker := { limits := retainedLimits }, sessions := { limits } } g₀)
    (own : ∀ s g i s', Reachable cfg s → I s g → s.step cfg (.handler c i) = some s' → I s' (follow s s' c g))
    (other : ∀ s g a s', Reachable cfg s → I s g → s.step cfg a = some s' → (∀ i, a ≠ .handler c i) → I s' g) :
    I s (g c) := by
  refine h.invariant (I := fun s g => I s (g c)) init fun s g a s' hr hi hstep => ?_
  by_cases hown : ∃ i, a = .handler c i
  · obtain ⟨i, rfl⟩ := hown
    simp only [noteHandler, hstep, Function.update_self]
    exact own s (g c) i s' hr.reachable hi hstep
  · have hother : ∀ i, a ≠ .handler c i := fun i e => hown ⟨i, e⟩
    have hsame : noteHandler cfg follow s a g c = g c := by
      cases a with
      | handler c' i =>
        have hne : c ≠ c' := fun e => hother i (congrArg (Action.handler · i) e.symm)
        simp only [noteHandler, hstep, Function.update_of_ne hne]
      | _ => rfl
    rw [hsame]
    exact other s (g c) a s' hr.reachable hi hstep hother

theorem Recorded.handler_invariant {follow : Server → Server → Nat → γ → γ} {g₀ : γ} {g : Nat → γ}
    (h : Recorded cfg (noteHandler cfg follow) (fun _ => g₀) s g) (c : Nat) {I : Server → γ → Prop}
    (init : ∀ retainedLimits limits, I { broker := { limits := retainedLimits }, sessions := { limits } } g₀)
    (own : ∀ s g i s', s.Sound cfg → I s g → s.step cfg (.handler c i) = some s' → I s' (follow s s' c g))
    (other : ∀ s g a s', s.Sound cfg → I s g → s.step cfg a = some s' → (∀ i, a ≠ .handler c i) → I s' g) :
    I s (g c) :=
  h.handler_history c init (fun s g i s' hr => own s g i s' hr.sound) fun s g a s' hr => other s g a s' hr.sound

/-- A run of the default server. -/
theorem recorded_fresh {acts : List Action} {x : Server × γ}
    (h : Sys.run (Sys.record (step cfg) note) (fresh, g₀) acts = some x) : Recorded cfg note g₀ x.1 x.2 :=
  ⟨_, _, defaultRetainedLimits, defaultLimits, acts, rfl, rfl, h⟩

end Recorded

end Server

end OrbMQ
