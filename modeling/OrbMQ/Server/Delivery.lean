import OrbMQ.Server.Sessions
import OrbMQ.Session.Between

/-!
# From the queue of a session to its connection

A publisher gets its PUBACK when its message is in the queues of the subscribers. From there on the message is in the
hands of the session, its consumer and the writer of its connection.

* `Server.kept_until_acknowledged`: a message stays in its queue until the client acknowledges it, or the session is
  removed.
* `Client.Extends`: what everybody but the writer does to a client. `Server.Reachable.step_leaves`: what everybody but
  the consumer does to its session.
* `Dispatch`: a history variable that says which packet of a client is the one of which message.
* `Server.Serves`: what a consumer has taken from the queue in its epoch is on the connection, or on the way to it; and
  a consumer that waits has nothing to do, or will be woken up. So it is in every run (`Server.Recorded.serves`).
-/

namespace OrbMQ

open Go

/-! ## What is in a queue stays there -/

namespace Server

variable {cfg : Config} {s s' : Server} {c : Nat} {i : Input} {e : Effect} {f : Conn → Conn}

/-- Only the handler of a PUBACK acknowledges a message. -/
theorem Turn.acks (ht : Turn cfg s c i e f) : (∀ r id, .on r (.ack id) ∉ e.calls c s) ∨
    ∃ a pkt, (s.conns c).active = some a ∧ (s.conns c).pc = .handling (.pubAck pkt) ∧
      e.calls c s = [.on a.session (.ack pkt.packetID)] := by
  have hopen : ∀ r id, .on r (.ack id) ∉ openCalls (s.conns c).connect (s.conns c).identity i := by
    intro r id
    unfold openCalls
    split <;> simp
  cases ht with
  | calls hpc ha hcall =>
    cases hcall with
    | ack => exact .inr ⟨_, _, ha, hpc, rfl⟩
    | _ => exact .inl (by simp [Effect.calls])
  | unopened => exact .inl hopen
  | acquire => exact .inl fun r id => by simp [Effect.calls, hopen r id]
  | release =>
    refine .inl fun r id => ?_
    simp only [Effect.calls]
    split <;> simp
  | _ => exact .inl (by simp [Effect.calls])

/-- The handler of `c`, whose session is `r`, has a PUBACK with the identifier of the message `p`. -/
structure Acknowledges (s : Server) (c r p : Nat) (pkt : PubAckPacket) : Prop where
  handles : (s.conns c).pc = .handling (.pubAck pkt)
  session : ∃ a, (s.conns c).active = some a ∧ a.session = r
  identifier : p ∈ (s.state r).entries ∧ ((s.state r).heap p).packetID = pkt.packetID ∧ pkt.packetID ≠ 0

theorem step_kept (h : s.Refines cfg) {a : Action} (hs : s.step cfg a = some s') {r p : Nat}
    (hr : r < s.sessions.allocated) (hp : p ∈ (s.state r).entries) :
    p ∈ (s'.state r).entries ∨ (s'.state r).deleted = true ∨
      ∃ c i pkt, a = .handler c i ∧ s.Acknowledges c r p pkt := by
  cases step_moves h hs with
  | @handler c i e f _ ht =>
    have hrun := ht.run_calls h
    obtain hno | ⟨a, pkt, ha, hpc, hcalls⟩ := ht.acks
    · exact (Store.kept_run hr (hno r) hrun (.inl hp)).imp_right .inl
    · rw [hcalls] at hrun
      obtain ⟨st₁, hop, hnil⟩ := Option.bind_eq_some_iff.mp hrun
      cases hnil
      obtain h' | h' | ⟨id, heq, hin⟩ := StoreOp.kept hr hop hp
      · exact .inl h'
      · exact .inr (.inl h')
      · cases heq
        refine .inr (.inr ⟨c, i, pkt, rfl, hpc, ⟨a, ha, rfl⟩, ?_⟩)
        exact ((h.store.accounts a.session).pointers.inflight _ p).mp hin
  | @consumer c i e f _ ht =>
    refine (Store.kept_run hr (fun id => ?_) (ht.run_calls h) (.inl hp)).imp_right .inl
    cases ht <;> simp [Effect.calls]
  | @sweep now order _ hrange =>
    have hrun : Sys.run StoreOp.step s.sessions [.expire now order] = some (s.sweep now order).sessions :=
      Sys.run_singleton (by rw [StoreOp.step, if_pos hrange]; rfl)
    exact (Store.kept_run hr (by simp) hrun (.inl hp)).imp_right .inl
  | _ => exact .inl hp

/-- What has become of a message that was in a queue before `acts`. -/
inductive MessageFate (cfg : Config) (s : Server) (acts : List Action) (s' : Server) (r p : Nat) : Prop
  | queued : p ∈ (s'.state r).entries → MessageFate cfg s acts s' r p
  | removed : (s'.state r).deleted = true → MessageFate cfg s acts s' r p
  | acknowledged {done rest : List Action} {m : Server} {c : Nat} {i : Input} {pkt : PubAckPacket} :
      acts = done ++ .handler c i :: rest → Sys.run (step cfg) s done = some m → m.Acknowledges c r p pkt →
      MessageFate cfg s acts s' r p

theorem step_deleted (h : s.Refines cfg) {a : Action} (hs : s.step cfg a = some s') {r : Nat}
    (hr : r < s.sessions.allocated) (hd : (s.state r).deleted = true) : (s'.state r).deleted = true := by
  have hstep : ∀ {ops : List StoreOp}, Sys.run StoreOp.step s.sessions ops = some s'.sessions →
      (s'.state r).deleted = true := by
    intro ops hrun
    have hinv := Sys.run_invariant (I := fun st : Store => r < st.allocated ∧ (st.states r).deleted = true) ⟨hr, hd⟩
      (fun st op st' hi hop => ⟨hi.1.trans_le (StoreOp.keeps hop).allocated, StoreOp.deleted hi.1 hop hi.2⟩) hrun
    exact hinv.2
  cases step_moves h hs with
  | handler _ ht => exact hstep (ht.run_calls h)
  | consumer _ ht => exact hstep (ht.run_calls h)
  | @sweep now order _ hrange =>
    have hrun : Sys.run StoreOp.step s.sessions [.expire now order] = some (s.sweep now order).sessions :=
      Sys.run_singleton (by rw [StoreOp.step, if_pos hrange]; rfl)
    exact hstep hrun
  | _ => exact hd

/-- **At least once, the first half.** A message that is in the queue of a session stays there, with its bytes, whoever
connects, publishes or leaves, until its client acknowledges it, or the session is removed. -/
theorem kept_until_acknowledged (cfg : Config) (s s' : Server) (acts : List Action) (h : Reachable cfg s)
    (hrun : Sys.run (step cfg) s acts = some s') (r p : Nat) (hr : r < s.sessions.allocated)
    (hp : p ∈ (s.state r).entries) :
    MessageFate cfg s acts s' r p ∧ ((s'.state r).heap p).data = ((s.state r).heap p).data ∧
      ((s'.state r).heap p).packetIDOffset = ((s.state r).heap p).packetIDOffset := by
  have hbound : p < (s.state r).allocated := (h.refines.store.accounts r).pointers.bound p hp
  have hinv := Sys.run_history (I := fun acts s' => Reachable cfg s' ∧ r < s'.sessions.allocated ∧
    (s.state r).Keeps (s'.state r) ∧ MessageFate cfg s acts s' r p) ⟨h, hr, .refl _, .queued hp⟩ ?_ hrun
  · obtain ⟨-, -, hkeeps, hfate⟩ := hinv
    exact ⟨hfate, hkeeps.data p hbound, hkeeps.offset p hbound⟩
  · rintro acts s₁ a s₂ hrun₁ ⟨hreach, hr₁, hkeeps, hfate⟩ hstep
    have hl := step_later hreach.refines hstep
    refine ⟨hreach.after hstep, hr₁.trans_le hl.allocated, hkeeps.trans (hl.keeps r hr₁), ?_⟩
    cases hfate with
    | queued hp₁ =>
      obtain h' | h' | ⟨c, i, pkt, rfl, hack⟩ := step_kept hreach.refines hstep hr₁ hp₁
      · exact .queued h'
      · exact .removed h'
      · exact .acknowledged rfl hrun₁ hack
    | removed hd => exact .removed (step_deleted hreach.refines hstep hr₁ hd)
    | @acknowledged done rest m c i pkt hacts hrun₀ hack =>
      have hsplit : acts ++ [a] = done ++ .handler c i :: (rest ++ [a]) := by rw [hacts]; simp
      exact .acknowledged hsplit hrun₀ hack

/-- The message of `echoes` before its consumer moves. -/
def echoQueued : List Action := echoes.take (echoes.length - 3)

/-- The consumer takes it, the writer writes it, and the consumer finds nothing more. -/
def echoDelivered : List Action :=
  [.consumer 0 {}, .consumer 0 {}, .consumer 0 {}, .write 0 8 none, .consumer 0 {}, .consumer 0 {}, .consumer 0 {},
    .consumer 0 {}, .consumer 0 {}, .consumer 0 {}]

theorem kept_until_acknowledged_echo : ∃ s s', Reachable openConfig s ∧ (s.state 0).entries = [0] ∧
    Sys.run (step openConfig) s echoDelivered = some s' ∧ MessageFate openConfig s echoDelivered s' 0 0 := by
  have hrun : ((Sys.run (step openConfig) fresh echoQueued).bind fun s =>
      (Sys.run (step openConfig) s echoDelivered).map fun _ => ((s.state 0).entries, s.sessions.allocated)) =
        some ([0], 1) := by decide +kernel
  obtain ⟨s, hs, he⟩ := Option.bind_eq_some_iff.mp hrun
  obtain ⟨s', hs', he⟩ := Option.map_eq_some_iff.mp he
  obtain ⟨hentries, hallocated⟩ := Prod.mk.inj he
  exact ⟨s, s', reachable_fresh hs, hentries, hs', (kept_until_acknowledged openConfig s s' echoDelivered
    (reachable_fresh hs) hs' 0 0 (by simp [hallocated]) (by simp [hentries])).1⟩

end Server

/-! ## A client and its queue -/

/-- What a client goes through, except for the writes to its connection. -/
structure Client.Extends (c c' : Client) : Prop extends c.Runs c' where
  queue : c.sendQ <+: c'.sendQ
  results : c'.results = c.results

namespace Client

variable {c c' : Client}

theorem Extends.refl (h : c.Inv) : c.Extends c := ⟨.refl h, List.prefix_rfl, rfl⟩

theorem enqueueWrite_queue (c : Client) (write : QueuedWrite) :
    c.sendQ <+: (c.enqueueWrite write).2.sendQ ∧ (c.enqueueWrite write).2.results = c.results := by
  unfold enqueueWrite
  repeat' split
  · exact ⟨List.prefix_rfl, rfl⟩
  · exact ⟨List.prefix_append _ _, rfl⟩
  · exact ⟨List.prefix_rfl, rfl⟩

theorem Extends.enqueue (h : c.Inv) (data : Bytes) : c.Extends (c.enqueue data).2 :=
  ⟨.enqueue h data, (enqueueWrite_queue c _).1, (enqueueWrite_queue c _).2⟩

theorem Extends.send (h : c.Inv) (data : Bytes) : c.Extends (c.send data).2 :=
  ⟨.send h data, (enqueueWrite_queue { c with channels := c.channels + 1 } _).1,
    (enqueueWrite_queue { c with channels := c.channels + 1 } _).2⟩

theorem Extends.close (h : c.Inv) : c.Extends c.close := ⟨.close h, List.prefix_rfl, rfl⟩

theorem Extends.writerExit (h : c.Inv) (hw : c.writerExit = some c') : c.Extends c' := by
  have hruns := Runs.writerExit h hw
  unfold Client.writerExit at hw
  split at hw <;> cases hw
  exact ⟨hruns, List.prefix_rfl, rfl⟩

end Client

theorem Conn.Peer.extends {k k' : Conn} (h : k.Peer k') (hi : k.client.Inv) : k.client.Extends k'.client := by
  cases h with
  | same | beginClosing => exact .refl hi
  | enqueue raw => exact .enqueue hi raw
  | close => exact .close hi

theorem Conn.sendPacket_extends (k : Conn) (hi : k.client.Inv) (pkt : Packet) (reply : Reply) :
    k.client.Extends (k.sendPacket pkt reply).client := by
  unfold Conn.sendPacket
  split
  · exact .refl hi
  · rename_i raw _
    have hsend := Client.Extends.send hi raw
    split <;> rename_i hres <;> rw [hres] at hsend <;> exact hsend

namespace Server

variable {cfg : Config} {s s' : Server} {c : Nat} {i : Input} {e : Effect} {f : Conn → Conn}

theorem Turn.extends (ht : Turn cfg s c i e f) (hj : (s.conns c).Joins) (hne : (s.conns c).consumer ≠ .absent) :
    (s.conns c).client.Extends (f ((e.apply c s).conns c)).client := by
  have hpeer := (e.peer c s c).extends hj.client
  cases ht with
  | handshake hpc =>
    have hplace := hj.place
    rw [hpc] at hplace
    exact (hne hplace).elim
  | reject => exact (s.conns c).sendPacket_extends hj.client _ _
  | sends => exact (s.conns c).sendPacket_extends hj.client _ _
  | serve =>
    show (s.conns c).client.Extends ((s.conns c).serve cfg i).client
    obtain e | ⟨_, -, e⟩ := (s.conns c).serve_cases cfg i <;> rw [e] <;> exact .refl hj.client
  | offer => exact .enqueue hj.client _
  | closeClient => exact .close hj.client
  | _ => exact hpeer

/-- A consumer that runs was begun long ago. -/
theorem Turn.consumer_eq (ht : Turn cfg s c i e f) (hj : (s.conns c).Joins) (hne : (s.conns c).consumer ≠ .absent) :
    (f ((e.apply c s).conns c)).consumer = (s.conns c).consumer := by
  obtain e' | ⟨hpc, -⟩ := ht.consumer ((e.apply c s).conns c)
  · rw [e', (e.peer c s c).consumer]
  · have hplace := hj.place
    rw [hpc] at hplace
    exact (hne hplace).elim

/-- The steps of all others leave the queue of a client to its writer, and a consumer to itself. -/
theorem step_extends (hr : s.Refines cfg) (hj : (s.conns c).Joins) (hne : (s.conns c).consumer ≠ .absent) {a : Action}
    (hs : s.step cfg a = some s') (hcons : ∀ i, a ≠ .consumer c i) (hwrite : ∀ n err, a ≠ .write c n err) :
    (s.conns c).client.Extends (s'.conns c).client ∧ (s'.conns c).consumer = (s.conns c).consumer := by
  have hm := step_conn hr hs c
  generalize s'.conns c = k at hm
  cases hm with
  | own ht => exact ⟨ht.extends hj hne, ht.consumer_eq hj hne⟩
  | consumer => exact (hcons _ rfl).elim
  | write => exact (hwrite _ _ rfl).elim
  | writerExit hw => exact ⟨.writerExit hj.client hw, rfl⟩
  | effect => exact ⟨(Effect.peer _ _ _ c).extends hj.client, (Effect.peer _ _ _ c).consumer⟩
  | same => exact ⟨.refl hj.client, rfl⟩

/-- The same with the writes. -/
theorem step_runs (hr : s.Refines cfg) (hj : (s.conns c).Joins) (hne : (s.conns c).consumer ≠ .absent) {a : Action}
    (hs : s.step cfg a = some s') (hcons : ∀ i, a ≠ .consumer c i) :
    (s.conns c).client.Runs (s'.conns c).client ∧ (s'.conns c).consumer = (s.conns c).consumer := by
  by_cases hwrite : ∃ n err, a = .write c n err
  · obtain ⟨n, err, rfl⟩ := hwrite
    have hm := step_conn hr hs c
    generalize s'.conns c = k at hm
    cases hm with
    | write hw => exact ⟨.writeNext hj.client hw, rfl⟩
    | same hne => exact (hne rfl).elim
  · obtain ⟨hext, hsame⟩ := step_extends hr hj hne hs hcons fun n err e => hwrite ⟨n, err, e⟩
    exact ⟨hext.toRuns, hsame⟩

/-! ## A session and its consumer -/

theorem Turn.leaves (ht : Turn cfg s c i e f) {r : Nat}
    (hb : (s.conns c).pc = .beginning → ∀ a, (s.conns c).active = some a → a.session ≠ r) :
    ∀ op ∈ e.calls c s, op.leaves r = true := by
  have hopen : ∀ op ∈ openCalls (s.conns c).connect (s.conns c).identity i, op.leaves r = true := by
    unfold openCalls
    split <;> simp [StoreOp.leaves]
  cases ht with
  | begin hpc ha => simpa [Effect.calls, StoreOp.leaves] using hb hpc _ ha
  | calls _ _ hcall => cases hcall <;> simp [Effect.calls, StoreOp.leaves]
  | unopened => exact hopen
  | acquire =>
    intro op hop
    obtain hop | hop := List.mem_append.mp hop
    · exact hopen op hop
    · obtain rfl := List.mem_singleton.mp hop
      rfl
  | release =>
    simp only [Effect.calls]
    split <;> simp [StoreOp.leaves]
  | _ => simp [Effect.calls, StoreOp.leaves]

theorem ConsumerTurn.leaves (ht : ConsumerTurn s c e f) {r : Nat}
    (hr : ∀ a epoch, (s.conns c).active = some a → (s.conns c).consumer.epoch? = some epoch → a.session ≠ r) :
    ∀ op ∈ e.calls c s, op.leaves r = true := by
  cases ht with
  | next hk ha => simpa [Effect.calls, StoreOp.leaves] using hr _ _ ha (by rw [hk]; rfl)
  | wake hk ha => simpa [Effect.calls, StoreOp.leaves] using hr _ _ ha (by rw [hk]; rfl)
  | _ => simp [Effect.calls]

/-- While the consumer of `c` runs, nobody else takes messages of its session. -/
theorem Reachable.step_leaves (h : Reachable cfg s) {a : Action} (hs : s.step cfg a = some s') {b : ActiveConnection}
    {epoch : UInt64} (hb : (s.conns c).active = some b) (he : (s.conns c).consumer.epoch? = some epoch)
    (hcons : ∀ i, a ≠ .consumer c i) : ∃ ops, Sys.run StoreOp.step s.sessions ops = some s'.sessions ∧
      ∀ op ∈ ops, op.leaves b.session = true := by
  have hsound := h.sound
  have howned : (s.conns c).owned = some b.session := by
    obtain ⟨b', hb', howned⟩ := hsound.consumes (h.joins c) he
    cases hb.symm.trans hb'
    exact howned
  have hunique : ∀ c', (s.conns c').owned = some b.session → c' = c := fun c' hc' =>
    hsound.refines.reached.inv.session_unique (g := s.registry) howned hc'
  cases step_moves hsound.refines hs with
  | @handler c' i e f _ ht =>
    refine ⟨e.calls c' s, ht.run_calls hsound.refines, ht.leaves fun hpc a' ha' hsession => ?_⟩
    have howned' := (hsound.refines.conns c').owned (by rw [hpc]; simp) ha'
    rw [hsession] at howned'
    obtain rfl := hunique c' howned'
    -- Who begins a delivery has no consumer yet.
    have hplace := (h.joins c').place
    rw [hpc] at hplace
    rw [show (s.conns c').consumer = .absent from hplace] at he
    cases he
  | @consumer c' i e f _ ht =>
    refine ⟨e.calls c' s, ht.run_calls hsound.refines, ht.leaves fun a' epoch' ha' he' hsession => ?_⟩
    obtain ⟨a'', ha'', howned'⟩ := hsound.consumes (h.joins c') he'
    cases ha'.symm.trans ha''
    rw [hsession] at howned'
    obtain rfl := hunique c' howned'
    exact hcons i rfl
  | @sweep now order _ hrange =>
    exact ⟨[.expire now order], Sys.run_singleton (by rw [StoreOp.step, if_pos hrange]; rfl), by simp [StoreOp.leaves]⟩
  | _ => exact ⟨[], rfl, by simp⟩

theorem Sound.owned_live (h : s.Sound cfg) {r : Nat} (hr : (s.conns c).owned = some r) :
    r < s.sessions.allocated ∧ (s.state r).deleted = false := by
  obtain ⟨-, hst, -⟩ := h.refines.reached.inv.owned (g := s.registry) hr
  obtain ⟨hlt, -, hd⟩ := h.refines.store.stored _ r hst
  exact ⟨hlt, hd⟩

theorem Reachable.window (h : Reachable cfg s) (hw : s.accepted < 2 ^ 64) {r : Nat} (hr : r < s.sessions.allocated)
    (hd : (s.state r).deleted = false) : ∃ w, State.Refines s.sessions.limits (s.state r) w := by
  obtain ⟨ops, htr, hb⟩ := h.tracked hw
  exact htr.window r hr (hb r).2 hd

end Server

/-! ## What a consumer has sent -/

/-- The messages that the consumer of a connection has sent. Two messages can have the same bytes once the identifiers
have wrapped, so this is what tells them apart. -/
structure Dispatch where
  /-- The message that the last call of `Next` has picked. -/
  taken : Option Nat := none
  /-- The messages that `Send` has accepted, each with the place of its packet among those of the client. -/
  sent : List (Nat × Nat) := []

namespace Dispatch

/-- `Send` accepts the packet number `j`. -/
def send (j : Nat) (g : Dispatch) : Dispatch := { g with sent := g.sent ++ (g.taken.map (·, j)).toList }

/-- A section of the consumer of `c`. -/
def consumer (s : Server) (c : Nat) (g : Dispatch) : Dispatch :=
  match (s.conns c).consumer, (s.conns c).active with
  | .selecting epoch, some a => { g with taken := (s.state a.session).select epoch }
  | .delivering _ d, _ =>
    if ((s.conns c).client.send d.data).1.isOk then g.send (s.conns c).client.accepted.length else g
  | _, _ => g

def note (s : Server) : Action → (Nat → Dispatch) → Nat → Dispatch
  | .consumer c _, g => Function.update g c ((g c).consumer s c)
  | _, g => g

variable {s : Server} {c : Nat}

theorem note_consumer (g : Nat → Dispatch) (i : Input) : note s (.consumer c i) g c = (g c).consumer s c :=
  Function.update_self ..

theorem note_of_ne {a : Action} (h : ∀ i, a ≠ .consumer c i) (g : Nat → Dispatch) : note s a g c = g c := by
  cases a with
  | consumer c' i => exact Function.update_of_ne (fun e => h i (by rw [e])) _ _
  | _ => rfl

theorem sent_mono (g : Dispatch) : ∀ x ∈ g.sent, x ∈ (g.consumer s c).sent := by
  intro x hx
  unfold consumer
  repeat' split
  · exact hx
  · exact List.mem_append_left _ hx
  · exact hx
  · exact hx

end Dispatch

namespace Conn

/-- The packet of the message `p`, which is `m`, is on the connection. -/
def OnWire (g : Dispatch) (p : Nat) (m : Entry) (k : Conn) : Prop :=
  ∃ j dup, (p, j) ∈ g.sent ∧ k.client.accepted[j]? = some (State.delivery m dup).data ∧ k.client.Written j

/-- The message is on the connection or on the way to it. -/
inductive Carries (g : Dispatch) (p : Nat) (m : Entry) (k : Conn) : Prop
  | fetched {epoch : UInt64} {dup : Bool} : k.consumer = .delivering epoch (State.delivery m dup) →
      g.taken = some p → Carries g p m k
  | sending {epoch : UInt64} {channel j : Nat} {dup : Bool} : k.consumer = .awaiting epoch channel →
      k.client.Tracks channel j → (p, j) ∈ g.sent → k.client.accepted[j]? = some (State.delivery m dup).data →
      Carries g p m k
  | written : k.OnWire g p m → Carries g p m k

variable {k k' : Conn} {g g' : Dispatch} {p : Nat} {m : Entry}

theorem getElem?_grows {c c' : Client} (hg : c.Grows c') {j : Nat} {data : Bytes} (h : c.accepted[j]? = some data) :
    c'.accepted[j]? = some data := by
  obtain ⟨more, e⟩ := hg.accepted
  rw [← e, List.getElem?_append_left (List.getElem?_eq_some_iff.mp h).1, h]

theorem OnWire.grows (h : k.OnWire g p m) (hg : k.client.Grows k'.client) : k'.OnWire g p m := by
  obtain ⟨j, dup, hsent, hget, hw⟩ := h
  exact ⟨j, dup, hsent, getElem?_grows hg hget,
    hw.of_extends (List.getElem?_eq_some_iff.mp hget).1 hg.accepted hg.wire⟩

theorem OnWire.mono (h : k.OnWire g p m) (hsub : ∀ x ∈ g.sent, x ∈ g'.sent) : k.OnWire g' p m := by
  obtain ⟨j, dup, hsent, hget⟩ := h
  exact ⟨j, dup, hsub _ hsent, hget⟩

theorem Carries.grows (h : k.Carries g p m) (hg : k.client.Grows k'.client) (hc : k'.consumer = k.consumer) :
    k'.Carries g p m := by
  cases h with
  | fetched hk htaken => exact .fetched (hc.trans hk) htaken
  | sending hk ht hsent hget => exact .sending (hc.trans hk) (hg.tracks _ _ ht) hsent (getElem?_grows hg hget)
  | written hw => exact .written (hw.grows hg)

/-- The message that the consumer has taken joins the queue. -/
theorem Carries.send (h : k.Carries g p m) (hi : k.client.Inv) {epoch : UInt64} {d : Delivery} {channel : Nat}
    (hk : k.consumer = .delivering epoch d) (hres : (k.client.send d.data).1 = .ok channel) :
    ({ k with client := (k.client.send d.data).2, consumer := .awaiting epoch channel } : Conn).Carries
      (g.send k.client.accepted.length) p m := by
  obtain ⟨haccepted, htracks⟩ := Client.send_tracks (Prod.ext hres rfl)
  cases h with
  | @fetched _ dup hk' htaken =>
    cases hk.symm.trans hk'
    have hget : (k.client.send (State.delivery m dup).data).2.accepted[k.client.accepted.length]? =
        some (State.delivery m dup).data := by
      rw [haccepted, List.getElem?_concat_length]
    exact .sending rfl htracks (by simp [Dispatch.send, htaken]) hget
  | sending hk' => cases hk.symm.trans hk'
  | written hw =>
    exact .written ((hw.grows (Client.Runs.send hi d.data).grows).mono fun x hx => List.mem_append_left _ hx)

/-- `Send` has returned without an error. -/
theorem Carries.sent (h : k.Carries g p m) (hi : k.client.Inv) {epoch : UInt64} {channel : Nat}
    (hk : k.consumer = .awaiting epoch channel) (hres : k.client.awaitSend channel = some (.ok ())) :
    k.OnWire g p m := by
  cases h with
  | fetched hk' => cases hk.symm.trans hk'
  | sending hk' htracks hsent hget =>
    cases hk.symm.trans hk'
    exact ⟨_, _, hsent, hget, htracks.written hi hres⟩
  | written hw => exact hw

/-- A consumer with nothing in its hands has sent all of it. -/
theorem Carries.onWire (h : k.Carries g p m) (hd : ∀ epoch d, k.consumer ≠ .delivering epoch d)
    (ha : ∀ epoch channel, k.consumer ≠ .awaiting epoch channel) : k.OnWire g p m := by
  cases h with
  | fetched hk => exact (hd _ _ hk).elim
  | sending hk => exact (ha _ _ hk).elim
  | written hw => exact hw

end Conn

namespace Server

variable {cfg : Config} {s s' : Server} {c : Nat} {i : Input} {e : Effect} {f : Conn → Conn}

/-- The connection `c`, whose consumer runs in `epoch` and has sent `g`, serves its session. -/
structure Serves (s : Server) (g : Dispatch) (c : Nat) (a : ActiveConnection) (epoch : UInt64) : Prop where
  begun : epoch ≠ 0
  carries : ∀ p ∈ (s.state a.session).entries, ((s.state a.session).heap p).lastEpoch = epoch →
    ((s.state a.session).heap p).packetID ≠ 0 → (s.conns c).Carries g p ((s.state a.session).heap p)
  signals : (s.conns c).consumer = .parked epoch → (s.state a.session).Signalled s.sessions.limits epoch

/-- `Send` has returned without an error. -/
theorem consumer_sent {epoch : UInt64} {channel : Nat} (hk : (s.conns c).consumer = .awaiting epoch channel)
    (hs : s.step cfg (.consumer c i) = some s') {epoch' : UInt64}
    (hk' : (s'.conns c).consumer.epoch? = some epoch') : (s.conns c).client.awaitSend channel = some (.ok ()) := by
  have hs := (Option.ite_none_right_eq_some.mp hs).2
  simp only [consumerStep, hk] at hs
  obtain ⟨res, hres, rfl⟩ := Option.map_eq_some_iff.mp hs
  rw [conns_setConn, if_pos rfl] at hk'
  cases res with
  | ok => exact hres
  | error => cases hk'

/-- A call of `Next`, by the message that it marks as sent. -/
theorem next_marks {l : Limits} {epoch : UInt64} {st st' : State} {t t' : Snapshot} {d : Delivery}
    (hn : st.next l epoch t = some (some d, st', t')) : ∃ p dup, st.select epoch = some p ∧
      d = State.delivery (st'.heap p) dup ∧ st'.entries = st.entries ∧ ∀ q ≠ p, st'.heap q = st.heap q := by
  obtain ⟨hd, -⟩ | ⟨-, p, hsel, ⟨-, hd, rfl, -⟩ | ⟨-, id, -, hd, rfl, -⟩⟩ := State.next_cases hn
  · cases hd
  · refine ⟨p, true, hsel, Option.some.inj hd, rfl, fun q hq => ?_⟩
    rw [State.heap_attempt, if_neg hq]
  · refine ⟨p, false, hsel, Option.some.inj hd, rfl, fun q hq => ?_⟩
    rw [State.heap_attempt, if_neg hq, State.heap_assign, if_neg hq]

/-- What a section of the consumer leaves in its session. -/
theorem carries_setSession (s : Server) (r : Nat) (res : State × Snapshot) {g : Dispatch} {k : Conn} {epoch : UInt64}
    (h : ∀ p ∈ res.1.entries, (res.1.heap p).lastEpoch = epoch → (res.1.heap p).packetID ≠ 0 →
      k.Carries g p (res.1.heap p)) :
    ∀ p ∈ ((s.setSession r res).state r).entries, (((s.setSession r res).state r).heap p).lastEpoch = epoch →
      (((s.setSession r res).state r).heap p).packetID ≠ 0 → k.Carries g p (((s.setSession r res).state r).heap p) := by
  rwa [state_setSession, if_pos rfl]

/-- A section of the consumer itself. -/
theorem Serves.consumer (hj : (s.conns c).Joins) (hr : s.Refines cfg) {a : ActiveConnection} {epoch : UInt64}
    {g : Dispatch} (ha : (s.conns c).active = some a) (hi : s.Serves g c a epoch)
    (hs : s.step cfg (.consumer c i) = some s') (he : (s'.conns c).consumer.epoch? = some epoch) :
    s'.Serves (g.consumer s c) c a epoch := by
  have hsent := fun channel epoch' hk => @consumer_sent cfg s s' c i epoch' channel hk hs epoch he
  -- A consumer with empty hands has everything on the connection, and there it stays.
  have hwire : ∀ p ∈ (s.state a.session).entries, ((s.state a.session).heap p).lastEpoch = epoch →
      ((s.state a.session).heap p).packetID ≠ 0 → (∀ epoch d, (s.conns c).consumer ≠ .delivering epoch d) →
      (∀ epoch channel, (s.conns c).consumer ≠ .awaiting epoch channel) →
      (s.conns c).OnWire (g.consumer s c) p ((s.state a.session).heap p) :=
    fun p hp hl hid hd hk => ((hi.carries p hp hl hid).onWire hd hk).mono g.sent_mono
  cases step_moves hr hs with
  | @consumer _ _ e f hc ht =>
    have htarget : e.target = none := by cases ht <;> rfl
    have hconn : (((e.apply c s).setConn c f).conns c) = f (s.conns c) := by
      rw [conns_setConn, if_pos rfl, Effect.conns_eq htarget]
    rw [hconn] at he
    refine ⟨hi.begun, ?_, ?_⟩ <;> rw [hconn]
    · cases ht with
      | poll hk => exact fun p hp hl hid => .written (hwire p hp hl hid (by simp [hk]) (by simp [hk]))
      | leave => cases he
      | @next epoch' a' d res hk ha' hn =>
        cases ha.symm.trans ha'
        refine carries_setSession s a.session res fun p hp hl hid => ?_
        obtain ⟨st, totals⟩ := res
        cases d with
        | none =>
          obtain ⟨-, rfl, -⟩ | ⟨-, q, -, ⟨-, hd, -⟩ | ⟨-, id, -, hd, -⟩⟩ := State.next_cases hn
          · exact .written (hwire p hp hl hid (by simp [hk]) (by simp [hk]))
          · cases hd
          · cases hd
        | some d =>
          obtain ⟨q, dup, hsel, rfl, hentries, hothers⟩ := next_marks hn
          by_cases hpq : p = q
          · subst hpq
            exact .fetched rfl (by simp only [Dispatch.consumer, hk, ha]; exact hsel)
          · rw [hothers p hpq] at hl hid ⊢
            rw [hentries] at hp
            exact .written (hwire p hp hl hid (by simp [hk]) (by simp [hk]))
      | send hk =>
        intro p hp hl hid
        dsimp only at he ⊢
        split at he
        · rename_i hres
          simp only [Dispatch.consumer, hk, hres]
          exact (hi.carries p hp hl hid).send hj.client hk hres
        · cases he
      | sent hk =>
        exact fun p hp hl hid =>
          .written (((hi.carries p hp hl hid).sent hj.client hk (hsent _ _ hk)).mono g.sent_mono)
      | fail => cases he
      | @wake epoch' a' state hk ha' hst =>
        cases ha.symm.trans ha'
        refine carries_setSession s a.session (state, s.sessions.totals) fun p hp hl hid => ?_
        rw [State.receiveChanged_eq hst] at hp hl hid ⊢
        exact .written (hwire p hp hl hid (by simp [hk]) (by simp [hk]))
    · intro hpark
      cases ht with
      | @next epoch' a' d res hk ha' hn =>
        cases ha.symm.trans ha'
        cases d with
        | some d => cases hpark
        | none =>
          cases hpark
          obtain ⟨st, totals⟩ := res
          show ((s.setSession a.session (st, totals)).state a.session).Signalled s.sessions.limits epoch
          rw [state_setSession, if_pos rfl]
          obtain ⟨-, rfl, -⟩ | ⟨-, q, -, ⟨-, hd, -⟩ | ⟨-, id, -, hd, -⟩⟩ := State.next_cases hn
          · exact .inr (State.not_deliverable_of_next hn)
          · cases hd
          · cases hd
      | send =>
        dsimp only at hpark
        split at hpark <;> cases hpark
      | sent _ hcase => obtain rfl | rfl := hcase <;> cases hpark
      | _ => cases hpark

/-- The delivery of `c` begins. -/
theorem step_begins (hr : s.Refines cfg) {act : Action} (hs : s.step cfg act = some s')
    (habs : (s.conns c).consumer = .absent) (hne : (s'.conns c).consumer ≠ .absent) :
    c < s.accepted ∧ ∃ a, (s.conns c).active = some a ∧ (s'.conns c).active = some a ∧
      s'.state a.session = (s.state a.session).beginDelivery.2 ∧
      (s'.conns c).consumer = .polling (s.state a.session).beginDelivery.1 := by
  cases step_moves hr hs with
  | @handler c' i e f hc' ht =>
    rw [conns_setConn] at hne ⊢
    split at hne
    · rename_i hcc
      subst hcc
      rw [if_pos rfl]
      obtain e' | ⟨-, a, ha, rfl, hcons, hactive⟩ := ht.consumer ((e.apply c s).conns c)
      · rw [e', (e.peer c s c).consumer] at hne
        exact (hne habs).elim
      · refine ⟨hc', a, ha, hactive.trans ha, ?_, hcons⟩
        exact (state_setSession s _ _ _).trans (if_pos rfl)
    · rw [(e.peer c' s c).consumer] at hne
      exact (hne habs).elim
  | @consumer c' i e f hc' ht =>
    have htarget : e.target = none := by cases ht <;> rfl
    rw [conns_setConn, Effect.conns_eq htarget] at hne
    split at hne
    · rename_i hcc
      subst hcc
      exact (ht.started habs).elim
    · exact (hne habs).elim
  | write | writerExit =>
    rw [conns_setConn] at hne
    split at hne
    · rename_i hcc
      subst hcc
      exact (hne habs).elim
    · exact (hne habs).elim
  | _ => exact (hne habs).elim

/-- A connection whose delivery has not begun is not counted. -/
theorem started_lt_accepted (hc : c < s.accepted) (habs : (s.conns c).consumer = .absent) : s.started < s.accepted := by
  have hlt : s.started < (Finset.range s.accepted).card := by
    refine Finset.card_lt_card ((Finset.ssubset_iff_of_subset (Finset.filter_subset _ _)).mpr
      ⟨c, Finset.mem_range.mpr hc, ?_⟩)
    rw [Finset.mem_filter, habs]
    simp [Consumer.started]
  rwa [Finset.card_range] at hlt

theorem Reachable.epoch_succ (h : Reachable cfg s) (hw : s.accepted < 2 ^ 64) (hc : c < s.accepted)
    (habs : (s.conns c).consumer = .absent) {r : Nat} (hr : r < s.sessions.allocated) : (s.state r).epoch + 1 ≠ 0 := by
  obtain ⟨ops, htr, hb⟩ := h.tracked hw
  have hepoch : (s.state r).epoch.toNat = StoreOp.begins r ops := htr.epoch r hr (hb r).2
  have hstarted := started_lt_accepted hc habs
  have hle := (hb r).1
  intro hzero
  have hnat := congrArg UInt64.toNat hzero
  rw [UInt64.toNat_add] at hnat
  simp only [UInt64.toNat_one, UInt64.toNat_zero] at hnat
  omega

/-- Nothing was sent yet in an epoch with an empty window. -/
theorem Reachable.unsent (h : Reachable cfg s) (hw : s.accepted < 2 ^ 64) {r : Nat} (hr : r < s.sessions.allocated)
    (hd : (s.state r).deleted = false) (hact : (s.state r).activeInflight = 0) {p : Nat}
    (hp : p ∈ (s.state r).entries) (hid : ((s.state r).heap p).packetID ≠ 0) :
    ((s.state r).heap p).lastEpoch ≠ (s.state r).epoch := by
  obtain ⟨w, hwin⟩ := h.window hw hr hd
  have hlaws := (hwin.windowLaws h.refines.store.valid).active
  rw [hact] at hlaws
  intro hlast
  have hnone := List.countP_eq_zero.mp (by exact_mod_cast hlaws.symm) p hp
  simp [hid, hlast] at hnone

theorem Serves.step (h : Reachable cfg s) {act : Action} (hs : s.step cfg act = some s') (hw : s'.accepted < 2 ^ 64)
    {g : Nat → Dispatch} (hi : ∀ c a epoch, (s.conns c).active = some a →
      (s.conns c).consumer.epoch? = some epoch → s.Serves (g c) c a epoch)
    (c : Nat) (a : ActiveConnection) (epoch : UInt64) (ha : (s'.conns c).active = some a)
    (he : (s'.conns c).consumer.epoch? = some epoch) : s'.Serves (Dispatch.note s act g c) c a epoch := by
  have hr := h.refines
  have hl := step_later hr hs
  by_cases habs : (s.conns c).consumer = .absent
  · obtain ⟨hc, b, hb, hb', hstate, hcons⟩ := step_begins hr hs habs (fun e => by rw [e] at he; cases he)
    cases ha.symm.trans hb'
    rw [hcons] at he
    cases he
    have hlt := (hr.conns c).session a hb
    have hw₀ := hl.accepted.trans_lt hw
    have h' := h.after hs
    refine ⟨h.epoch_succ hw₀ hc habs hlt, fun p hp hlast hid => ?_, fun hpark => by rw [hcons] at hpark; cases hpark⟩
    obtain ⟨b', hb'', howned⟩ := h'.sound.consumes (h'.joins c) (show (s'.conns c).consumer.epoch? = _ by rw [hcons]; rfl)
    cases hb'.symm.trans hb''
    obtain ⟨hlt', hlive⟩ := h'.sound.owned_live howned
    refine (h'.unsent hw hlt' hlive (by rw [hstate]; rfl) hp hid ?_).elim
    rw [hlast, hstate]
    rfl
  · by_cases hown : ∃ i, act = .consumer c i
    · obtain ⟨i, rfl⟩ := hown
      obtain ⟨hepoch, b, hb, hactive⟩ : (s.conns c).consumer.epoch? = some epoch ∧
          ∃ b, (s.conns c).active = some b ∧ (s'.conns c).active = some b := by
        have hm := step_conn hr hs c
        generalize s'.conns c = k at hm ha he
        cases hm with
        | consumer ht =>
          refine ⟨ht.epoch_eq he, a, ?_, ha⟩
          cases ht <;> exact ha
        | same hne => exact (hne rfl).elim
      cases ha.symm.trans hactive
      rw [Dispatch.note_consumer]
      exact (hi c a epoch hb hepoch).consumer (h.joins c) hr hb hs he
    · have hcons : ∀ i, act ≠ .consumer c i := fun i e => hown ⟨i, e⟩
      rw [Dispatch.note_of_ne hcons]
      obtain ⟨hruns, hsame⟩ := step_runs hr (h.joins c) habs hs hcons
      rw [hsame] at he
      obtain ⟨a₀, ha₀, -⟩ := h.sound.consumes (h.joins c) he
      obtain ⟨a₁, ha₁, hsession, -⟩ := (hl.conns c).owner a₀ ha₀
      cases ha.symm.trans ha₁
      have hserves := hi c a₀ epoch ha₀ he
      obtain ⟨ops, hrun, hleaves⟩ := h.step_leaves hs ha₀ he hcons
      obtain ⟨hpass, hsig⟩ := Store.passes ((hr.conns c).session a₀ ha₀) hleaves hrun
      have hb := (hr.store.accounts a₀.session).pointers.bound
      refine ⟨hserves.begun, fun p hp hlast hid => ?_, fun hpark => ?_⟩
      · rw [hsession] at hp hlast hid ⊢
        obtain ⟨hp₀, hheap⟩ := hpass.mem hb hp hid
        change (s'.state a₀.session).heap p = (s.state a₀.session).heap p at hheap
        rw [hheap] at hlast hid ⊢
        exact (hserves.carries p hp₀ hlast hid).grows hruns.grows hsame
      · rw [hsession]
        exact hsig epoch (hserves.signals (hsame ▸ hpark))

theorem Recorded.serves {g : Nat → Dispatch} (h : Recorded cfg Dispatch.note (fun _ => {}) s g)
    (hw : s.accepted < 2 ^ 64) {a : ActiveConnection} {epoch : UInt64} (ha : (s.conns c).active = some a)
    (he : (s.conns c).consumer.epoch? = some epoch) : s.Serves (g c) c a epoch := by
  refine h.invariant (I := fun s g => s.accepted < 2 ^ 64 → ∀ c a epoch, (s.conns c).active = some a →
    (s.conns c).consumer.epoch? = some epoch → s.Serves (g c) c a epoch) (fun _ _ _ _ _ _ _ he => by cases he) ?_
    hw c a epoch ha he
  intro s g act s' hr hi hstep hw'
  exact Serves.step hr.reachable hstep hw' (hi ((step_later hr.reachable.refines hstep).accepted.trans_lt hw'))

end Server

end OrbMQ
