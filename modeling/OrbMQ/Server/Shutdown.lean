import OrbMQ.Server.Sessions

/-!
# The server stops

When its context ends, `Start` waits for the handlers of all connections. A handler waits in turn: for the read lock
of the registry to be free, for the write of its reply, for its consumer, for its writer, and for the connection from
which it takes over. `Server.shutdown_completes`: these waits never form a cycle, so that every handler returns.

* `Action.stopping`: the steps of a server whose context has ended.
* `Pc.work`, `Consumer.work`, `Client.work`: what a goroutine has left to do. Every step lowers the first of the three
  totals that it changes (`Server.work`).
* `Sound.progress`: as long as a handler is there, some goroutine can take a step.
-/

namespace OrbMQ

open Go

/-! ## What is left to do -/

/-- The part of `publishMessage` that a handler is in, and the rounds of its loop. -/
def PublishStage.work : PublishStage → Nat × Nat
  | .returning _ => (0, 0)
  | .visiting _ _ subs => (1, 3 * subs.length)
  | .delivering _ _ (.enqueue ..) subs => (1, 3 * subs.length + 2)
  | .delivering _ _ _ subs => (1, 3 * subs.length + 1)
  | .matching => (2, 0)
  | .retaining => (3, 0)
  | .locking => (4, 0)

/-- The part of `handleConn` that a handler is in once its context has ended, the rounds of its loop, and those of the
loop inside. A connection that has not got its session gets none. -/
def Pc.work : Pc → ℕ ×ₗ ℕ ×ₗ ℕ
  | .finished => toLex (0, toLex (0, 0))
  | .closingSession => toLex (1, toLex (0, 0))
  | .waitingWriter => toLex (2, toLex (0, 0))
  | .joining => toLex (3, toLex (0, 0))
  | .closingClient => toLex (4, toLex (0, 0))
  | .deferred => toLex (5, toLex (0, 0))
  -- no session
  | .awaiting _ .refusal => toLex (6, toLex (0, 0))
  | .rejecting _ => toLex (7, toLex (0, 0))
  | .acquiring => toLex (8, toLex (0, 0))
  | .waitingFor _ => toLex (9, toLex (0, 0))
  | .takingOver _ => toLex (10, toLex (0, 0))
  | .authenticating => toLex (11, toLex (0, 0))
  | .handshake => toLex (12, toLex (0, 0))
  -- `serve` is left, and the will is published
  | .publishing .will _ stage => toLex (6 + stage.work.1, toLex (stage.work.2, 0))
  | .ending _ => toLex (11, toLex (0, 0))
  | .serving => toLex (12, toLex (0, 0))
  -- a packet is handled
  | .awaiting _ .response => toLex (13, toLex (0, 0))
  | .acknowledging _ => toLex (14, toLex (0, 0))
  | .publishing .packet _ stage => toLex (15 + stage.work.1, toLex (stage.work.2, 0))
  | .resuming _ => toLex (13, toLex (0, 0))
  | .replaying entries => toLex (14, toLex (2 * entries.length, 0))
  | .offering retained _ entries => toLex (14, toLex (2 * entries.length + 1, retained.length))
  | .awaiting _ (.suback _) => toLex (15, toLex (0, 0))
  | .subscribing _ _ rest => toLex (16, toLex (2 * rest.length, 0))
  | .routing _ _ _ _ rest => toLex (16, toLex (2 * rest.length + 1, 0))
  | .unsubscribing _ rest => toLex (16, toLex (2 * rest.length, 0))
  | .forgetting _ _ rest => toLex (16, toLex (2 * rest.length + 1, 0))
  | .handling _ => toLex (20, toLex (0, 0))
  -- the delivery begins
  | .beginning => toLex (13, toLex (0, 0))
  | .readying => toLex (14, toLex (0, 0))
  | .awaiting _ .connack => toLex (15, toLex (0, 0))
  | .connack _ => toLex (16, toLex (0, 0))

def Consumer.work : Consumer → ℕ
  | .absent | .returned => 0
  | .failing => 1
  | .polling _ => 2
  | .parked _ => 3
  | .awaiting .. => 4
  | .delivering .. => 5
  | .selecting _ => 6

def Client.work (c : Client) : ℕ := c.sendQ.length + if c.writeDone then 0 else 1

theorem Client.writeNext_work {c c' : Client} {n : Nat} {err : Option Err} (h : c.writeNext n err = some c') :
    c'.work < c.work := by
  unfold Client.writeNext at h
  split at h
  · cases h
  · rename_i hd
    split at h
    · cases h
    · rename_i write rest hq
      have h := (Option.some.inj h).symm
      subst h
      split <;> simp [Client.work, hq, hd, Client.close]

theorem Client.writerExit_work {c c' : Client} (h : c.writerExit = some c') : c'.work < c.work := by
  obtain ⟨⟨-, hd⟩, h⟩ := Option.ite_none_right_eq_some.mp h
  cases h
  simp [Client.work, hd]

namespace Server

variable {cfg : Config} {s s' : Server} {c : Nat} {i : Input} {e : Effect} {f : Conn → Conn}

theorem Goes.work {pc pc' : Pc} (hg : Goes cfg s c i pc pc') : pc'.work < pc.work := by
  cases hg with
  | @returned origin p err =>
    cases origin with
    | will => simp [published, Pc.work, PublishStage.work, Prod.Lex.toLex_lt_toLex]
    | packet =>
      simp only [published]
      repeat' split
      all_goals simp [Pc.work, PublishStage.work, Prod.Lex.toLex_lt_toLex]
  | @written channel reply => cases reply <;> simp [Reply.sent, Pc.work, Prod.Lex.toLex_lt_toLex]
  | @unwritten channel reply => cases reply <;> simp [Reply.failed, Pc.work, Prod.Lex.toLex_lt_toLex]
  | @lock origin | @pass origin | @matched origin | @visited origin | @skip origin | @failed origin | @send origin
  | @queue origin =>
    cases origin <;> simp [Pc.work, PublishStage.work, Prod.Lex.toLex_lt_toLex] <;> omega
  | _ => simp [Pc.work, PublishStage.work, Prod.Lex.toLex_lt_toLex] <;> omega

theorem Sends.work {pc : Pc} {pkt : Packet} {reply : Reply} (hs : Sends pc pkt reply) (channel : Nat) :
    reply.failed.work < pc.work ∧ (Pc.awaiting channel reply).work < pc.work := by
  cases hs <;> simp [Pc.work, Reply.failed, Prod.Lex.toLex_lt_toLex]

theorem Calls.work {r : Nat} {pc pc' : Pc} {op : StateOp} (hcall : Calls cfg s i r pc op pc') : pc'.work < pc.work := by
  cases hcall with
  | @resume ok => cases ok <;> simp [Pc.work, Prod.Lex.toLex_lt_toLex]
  | _ => simp [Pc.work, Prod.Lex.toLex_lt_toLex] <;> omega

theorem sendPacket_work {k : Conn} {pkt : Packet} {reply : Reply} (hfail : reply.failed.work < k.pc.work)
    (hwait : ∀ channel, (Pc.awaiting channel reply).work < k.pc.work) : (k.sendPacket pkt reply).pc.work < k.pc.work := by
  obtain ⟨client, pc, e, -, ⟨rfl, -⟩ | ⟨channel, raw, rfl, -⟩⟩ := k.sendPacket_sends pkt reply <;> rw [e]
  · exact hfail
  · exact hwait channel

/-- Every section lowers what its handler has left, except those that get it a session or a packet. -/
theorem Turn.work (ht : Turn cfg s c i e f) (hacquire : (s.conns c).pc ≠ .acquiring)
    (hserve : (s.conns c).pc = .serving → i.fail = true) :
    (f ((e.apply c s).conns c)).pc.work < (s.conns c).pc.work := by
  cases ht with
  | goes hpc hg => exact hpc ▸ hg.work
  | handshake hpc =>
    show ((s.conns c).handshake cfg i).pc.work < _
    obtain e | ⟨connect, -, e⟩ := (s.conns c).handshake_cases cfg i <;>
    · rw [e, hpc]
      simp [Pc.work, Prod.Lex.toLex_lt_toLex]
  | reject hpc =>
    refine sendPacket_work (k := s.conns c) ?_ fun channel => ?_ <;>
    · rw [hpc]
      simp [Pc.work, Reply.failed, Prod.Lex.toLex_lt_toLex]
  | sends hpc hs =>
    exact sendPacket_work (k := s.conns c) (hpc ▸ (hs.work 0).1) fun channel => hpc ▸ (hs.work channel).2
  | denied hpc hcase =>
    rw [hpc]
    obtain ⟨_, rfl, rfl⟩ | ⟨_, _, _, _, rfl, rfl⟩ := hcase <;> simp [Pc.work, Prod.Lex.toLex_lt_toLex]
  | takeOver hpc | unopened hpc | acquire hpc => exact (hacquire hpc).elim
  | serve hpc =>
    show ((s.conns c).serve cfg i).pc.work < _
    rw [Conn.serve, if_pos (hserve hpc), hpc]
    simp [Pc.work, Prod.Lex.toLex_lt_toLex]
  | calls hpc _ hcall => exact hpc ▸ hcall.work
  | offer hpc _ _ _ hcase =>
    rw [hpc]
    obtain rfl | rfl := hcase <;> simp [Pc.work, Prod.Lex.toLex_lt_toLex]
  | @retain origin p hpc =>
    rw [hpc]
    dsimp only
    cases origin <;> split <;> simp [Pc.work, PublishStage.work, Prod.Lex.toLex_lt_toLex]
  | @enqueue origin p cache err o raw subs hpc =>
    rw [hpc]
    dsimp only
    cases origin <;> split <;> simp [Pc.work, PublishStage.work, Prod.Lex.toLex_lt_toLex]
  | @close origin p cache err o subs hpc =>
    rw [hpc]
    cases origin <;> simp [Pc.work, PublishStage.work, Prod.Lex.toLex_lt_toLex]
  | @admission origin p cache err r t subs result res hpc =>
    rw [hpc]
    cases origin <;> simp [Pc.work, PublishStage.work, Prod.Lex.toLex_lt_toLex]
  | authenticated hpc | closePrevious hpc | ready hpc | begin hpc | route hpc | unroute hpc | beginClosing hpc
  | closeClient hpc | release hpc =>
    rw [hpc]
    simp [Pc.work, Prod.Lex.toLex_lt_toLex] <;> omega

theorem ConsumerTurn.work (ht : ConsumerTurn s c e f) (hpoll : ∀ epoch, (s.conns c).consumer = .polling epoch →
    (f (s.conns c)).consumer = .returned) : (f (s.conns c)).consumer.work < (s.conns c).consumer.work := by
  cases ht with
  | poll hc => cases hpoll _ hc
  | leave hc => obtain e | e := hc <;> simp [e, Consumer.work]
  | @next epoch a d res hc =>
    rw [hc]
    cases d <;> simp [Consumer.work]
  | send hc =>
    rw [hc]
    dsimp only
    split <;> simp [Consumer.work]
  | sent hc hcase =>
    rw [hc]
    obtain rfl | rfl := hcase <;> simp [Consumer.work]
  | fail hc | wake hc =>
    rw [hc]
    simp [Consumer.work]

/-! ## The steps of a server whose context has ended -/

end Server

/-- No connection is accepted. `serve`, `acquireConnection` and `consumeDeliveries` find that the context has ended
where they look at it; `select` may still prefer another channel. -/
def Action.stopping (s : Server) : Action → Prop
  | .accept | .sweep .. => False
  | .handler c i => (s.conns c).pc = .serving ∨ (s.conns c).pc = .acquiring → i.fail = true
  | .consumer c i => (∃ epoch, (s.conns c).consumer = .polling epoch) → i.fail = true
  | .write .. | .writerExit .. => True

namespace Server

/-- A step of a server that stops. Besides, at most as many things happen as the number says that were under way when
the context ended: `serve` gets a packet, or a round of `startSessionExpiry`. -/
inductive Stops (cfg : Config) : Server × Nat → Server × Nat → Prop
  | act {s s' : Server} {n : Nat} {a : Action} : a.stopping s → s.step cfg a = some s' → Stops cfg (s, n) (s', n)
  | late {s s' : Server} {n : Nat} {a : Action} :
      (∃ c i, a = .handler c i ∧ (s.conns c).pc = .serving) ∨ (∃ now order, a = .sweep now order) →
      s.step cfg a = some s' → Stops cfg (s, n + 1) (s', n)

variable {cfg : Config} {s s' : Server} {c : Nat} {i : Input} {e : Effect} {f : Conn → Conn}

/-- A total over the connections. -/
def total {ρ : Type} [AddCommMonoid ρ] (s : Server) (w : Conn → ρ) : ρ := ∑ c ∈ Finset.range s.accepted, w (s.conns c)

theorem total_congr {ρ : Type} [AddCommMonoid ρ] {w : Conn → ρ} (ha : s'.accepted = s.accepted)
    (h : ∀ c, w (s'.conns c) = w (s.conns c)) : s'.total w = s.total w := by
  rw [total, total, ha]
  exact Finset.sum_congr rfl fun c _ => h c

theorem total_lt {ρ : Type} [AddCommMonoid ρ] [Preorder ρ] [IsOrderedCancelAddMonoid ρ] [AddLeftStrictMono ρ]
    {w : Conn → ρ} (ha : s'.accepted = s.accepted) (hc : c < s.accepted)
    (h : ∀ c', c' ≠ c → w (s'.conns c') = w (s.conns c')) (hlt : w (s'.conns c) < w (s.conns c)) :
    s'.total w < s.total w := by
  rw [total, total, ha]
  refine Finset.sum_lt_sum (fun c' _ => ?_) ⟨c, Finset.mem_range.mpr hc, hlt⟩
  by_cases e : c' = c
  · exact e ▸ hlt.le
  · exact (h c' e).le

/-- What is left for all handlers, consumers and writers. -/
def work (s : Server) : (ℕ ×ₗ ℕ ×ₗ ℕ) ×ₗ ℕ ×ₗ ℕ :=
  toLex (s.total (·.pc.work), toLex (s.total (·.consumer.work), s.total (·.client.work)))

theorem work_lt_of_handlers (h : s'.total (·.pc.work) < s.total (·.pc.work)) : s'.work < s.work :=
  Prod.Lex.toLex_lt_toLex.mpr (.inl h)

theorem work_lt_of_consumers (he : s'.total (·.pc.work) = s.total (·.pc.work))
    (h : s'.total (·.consumer.work) < s.total (·.consumer.work)) : s'.work < s.work :=
  Prod.Lex.toLex_lt_toLex.mpr (.inr ⟨he, Prod.Lex.toLex_lt_toLex.mpr (.inl h)⟩)

/-- A writer changes only its client. -/
theorem work_lt_of_writer {client : Client} (hc : c < s.accepted) (hlt : client.work < (s.conns c).client.work) :
    (s.setConn c ({ · with client })).work < s.work := by
  generalize hs' : s.setConn c ({ · with client }) = s'
  have hconns : ∀ c', s'.conns c' = if c' = c then { s.conns c with client } else s.conns c' := fun c' => by
    rw [← hs', conns_setConn]
  have hacc : s'.accepted = s.accepted := by
    rw [← hs']
    rfl
  have hpcs : s'.total (·.pc.work) = s.total (·.pc.work) := total_congr hacc fun c' => by
    rw [hconns]
    split <;> simp_all
  have hconsumers : s'.total (·.consumer.work) = s.total (·.consumer.work) := total_congr hacc fun c' => by
    rw [hconns]
    split <;> simp_all
  have hwriters : s'.total (·.client.work) < s.total (·.client.work) := by
    refine total_lt hacc hc (fun c' hne => ?_) ?_
    · rw [hconns, if_neg hne]
    · rw [hconns, if_pos rfl]
      exact hlt
  exact Prod.Lex.toLex_lt_toLex.mpr (.inr ⟨hpcs, Prod.Lex.toLex_lt_toLex.mpr (.inr ⟨hconsumers, hwriters⟩)⟩)

theorem step_accepted (h : s.Refines cfg) {a : Action} (ha : a ≠ .accept) (hs : s.step cfg a = some s') :
    s'.accepted = s.accepted := by
  cases step_moves h hs with
  | accept => exact (ha rfl).elim
  | handler => exact Effect.accepted _ _ _
  | consumer => exact Effect.accepted _ _ _
  | _ => rfl

/-- Its own sections apart, a consumer is left alone once the handler has begun the delivery. -/
theorem step_consumer (h : s.Refines cfg) {a : Action} (hs : s.step cfg a = some s') (hh : ∀ i, a ≠ .handler c i)
    (hc : ∀ i, a ≠ .consumer c i) : (s'.conns c).consumer = (s.conns c).consumer := by
  have hm := step_conn h hs c
  generalize s'.conns c = k at hm
  cases hm with
  | own => exact (hh _ rfl).elim
  | consumer => exact (hc _ rfl).elim
  | effect => exact (Effect.peer _ _ _ _).consumer
  | write | writerExit | same => rfl

/-- A consumer that finds its context ended returns. -/
theorem poll_stops {epoch : UInt64} (hc : (s.conns c).consumer = .polling epoch) (hf : i.fail = true)
    (hs : s.step cfg (.consumer c i) = some s') : (s'.conns c).consumer = .returned := by
  have hs := (Option.ite_none_right_eq_some.mp hs).2
  simp only [consumerStep, hc, hf, true_or, if_true, Option.some.injEq] at hs
  rw [← hs, conns_setConn, if_pos rfl]

theorem acquiring_stops (hpc : (s.conns c).pc = .acquiring) (hf : i.fail = true)
    (hs : s.step cfg (.handler c i) = some s') : (s'.conns c).pc = .deferred := by
  have hs := step_handler hs
  simp only [handlerStep, hpc, acquireConnection, hf, if_true] at hs
  split at hs <;> cases hs
  exact goto_pc s c .deferred

/-- Every step lowers what is left. -/
theorem step_work (h : s.Refines cfg) {a : Action} (ha : a.stopping s) (hs : s.step cfg a = some s') :
    s'.work < s.work := by
  have hacc := step_accepted h (by rintro rfl; exact ha) hs
  cases a with
  | accept => exact ha.elim
  | sweep => exact ha.elim
  | handler c i =>
    have hc : c < s.accepted := (Option.ite_none_right_eq_some.mp hs).1
    refine work_lt_of_handlers (total_lt hacc hc (fun c' hne => ?_) ?_)
    · rw [step_pc_eq h hs (by rintro i' ⟨⟩; exact hne rfl)]
    · by_cases hpc : (s.conns c).pc = .acquiring
      · rw [acquiring_stops hpc (ha (.inr hpc)) hs, hpc]
        simp [Pc.work, Prod.Lex.toLex_lt_toLex]
      · have hm := step_conn h hs c
        generalize s'.conns c = k at hm
        cases hm with
        | own ht => exact ht.work hpc fun hpc => ha (.inl hpc)
        | effect hne => exact (hne rfl).elim
        | same hne => exact (hne rfl).elim
  | consumer c i =>
    have hc : c < s.accepted := (Option.ite_none_right_eq_some.mp hs).1
    refine work_lt_of_consumers (total_congr hacc fun c' => ?_) (total_lt hacc hc (fun c' hne => ?_) ?_)
    · rw [step_pc_eq h hs (by rintro i' ⟨⟩)]
    · rw [step_consumer h hs (by rintro i' ⟨⟩) (by rintro i' ⟨⟩; exact hne rfl)]
    · have hpoll : ∀ epoch, (s.conns c).consumer = .polling epoch → (s'.conns c).consumer = .returned :=
        fun epoch he => poll_stops he (ha ⟨epoch, he⟩) hs
      have hm := step_conn h hs c
      generalize s'.conns c = k at hm hpoll
      cases hm with
      | consumer ht => exact ht.work hpoll
      | same hne => exact (hne rfl).elim
  | write c n err =>
    cases step_moves h hs with
    | write hc hw => exact work_lt_of_writer hc (Client.writeNext_work hw)
  | writerExit c =>
    cases step_moves h hs with
    | writerExit hc hw => exact work_lt_of_writer hc (Client.writerExit_work hw)

/-! ## Nobody waits forever -/

/-- The next section of a handler can run, unless it waits for another goroutine of its connection or for the
registry. -/
theorem Sound.handler_runs (h : s.Sound cfg) (hlock : s.Unread ∨ (s.conns c).pc.reading = true)
    (hne : (s.conns c).pc ≠ .finished)
    (hwait : ∀ channel reply, (s.conns c).pc = .awaiting channel reply → (s.conns c).client.awaitSend channel ≠ none)
    (hjoin : (s.conns c).pc = .joining → (s.conns c).Quiet)
    (hdrain : (s.conns c).pc = .waitingWriter → (s.conns c).client.writeDone = true) :
    ∃ i : Input, i.fail = true ∧ (s.handlerStep cfg c i).isSome = true := by
  have hactive : (s.conns c).pc.serves = true → ∃ a, (s.conns c).active = some a :=
    fun hs => Option.ne_none_iff_exists'.mp ((h.conns c).serves hs)
  have hunread : (s.conns c).pc.reading = false → s.Unread := fun hr => hlock.resolve_right (by simp [hr])
  cases hpc : (s.conns c).pc with
  | finished => exact (hne hpc).elim
  | acquiring | deferred | closingSession =>
    have hu := hunread (by rw [hpc]; rfl)
    refine ⟨{ fail := true }, rfl, ?_⟩
    simp only [handlerStep, hpc, hu, if_true]
    repeat' split
    all_goals rfl
  | beginning | handling | subscribing | routing | resuming | forgetting =>
    obtain ⟨a, ha⟩ := hactive (by rw [hpc]; rfl)
    refine ⟨{ fail := true }, rfl, ?_⟩
    simp only [handlerStep, hpc, ha]
    rfl
  | unsubscribing p rest =>
    obtain ⟨a, ha⟩ := hactive (by rw [hpc]; rfl)
    refine ⟨{ fail := true }, rfl, ?_⟩
    cases rest <;> simp [handlerStep, hpc, ha]
  | offering retained code entries =>
    obtain ⟨a, ha⟩ := hactive (by rw [hpc]; rfl)
    refine ⟨{ fail := true }, rfl, ?_⟩
    cases retained <;> simp [handlerStep, hpc, ha]
  | replaying entries =>
    -- The environment chooses how the loops over maps go.
    refine ⟨{ fail := true, order := s.broker.retained.keys }, rfl, ?_⟩
    have hr : Map.Ranges s.broker.retained s.broker.retained.keys := .refl _
    rcases entries with - | ⟨⟨filter, code⟩, entries⟩ <;> simp only [handlerStep, hpc, hr, if_true]
    · rfl
    · split <;> rfl
  | publishing origin p stage =>
    have hm : s.broker.topics.Matches p.topic (Map.vals (s.broker.topics.matched p.topic)) := .refl _
    refine ⟨{ fail := true, subs := Map.vals (s.broker.topics.matched p.topic) }, rfl, ?_⟩
    simp only [handlerStep, hpc, publishMessage, hm, if_true]
    repeat' split
    all_goals rfl
  | awaiting channel reply =>
    obtain ⟨res, hres⟩ := Option.ne_none_iff_exists'.mp (hwait channel reply hpc)
    refine ⟨{ fail := true }, rfl, ?_⟩
    simp [handlerStep, hpc, hres]
  | joining =>
    refine ⟨{ fail := true }, rfl, ?_⟩
    obtain e | e := hjoin hpc <;> simp [handlerStep, hpc, e]
  | waitingWriter =>
    refine ⟨{ fail := true }, rfl, ?_⟩
    simp [handlerStep, hpc, hdrain hpc]
  | _ =>
    refine ⟨{ fail := true }, rfl, ?_⟩
    simp [handlerStep, hpc]

/-- Some goroutine can take a step. -/
def Advances (cfg : Config) (s : Server) : Prop := ∃ a s', Action.stopping s a ∧ s.step cfg a = some s'

/-- A goroutine that waits for a write gets its result, or the writer can go on. -/
theorem write_advances (hj : (s.conns c).Joins) (hc : c < s.accepted) {channel j : Nat}
    (ht : (s.conns c).client.Tracks channel j) :
    (s.conns c).client.awaitSend channel ≠ none ∨ s.Advances cfg := by
  obtain ⟨front, data, rest, hq, -⟩ | ⟨res, hres, -⟩ := ht.result
  · cases hw : (s.conns c).client.writeDone with
    | true =>
      refine .inl ?_
      unfold Client.awaitSend
      split <;> simp [hj.stopped hw]
    | false =>
      have hsome : ((s.conns c).client.writeNext 0 none).isSome = true := by
        rw [Client.writeNext, hw, hq]
        cases front <;> rfl
      obtain ⟨client, hclient⟩ := Option.isSome_iff_exists.mp hsome
      exact .inr ⟨.write c 0 none, _, trivial, by rw [step, if_pos hc, hclient]; rfl⟩
  · exact .inl (by simp [Client.awaitSend, hres])

/-- A consumer that runs can go on, or it waits for its writer. -/
theorem Reachable.consumer_advances (h : Reachable cfg s) (hw : s.accepted < 2 ^ 64) (hc : c < s.accepted)
    (hq : ¬ (s.conns c).Quiet) : s.Advances cfg := by
  -- With a context that has ended, a consumer waits only for `Send`.
  have hrun : (s.consumerStep c { fail := true }).isSome = true → s.Advances cfg := fun hs => by
    obtain ⟨s', hs'⟩ := Option.isSome_iff_exists.mp hs
    exact ⟨.consumer c { fail := true }, s', fun _ => rfl, by rw [step, if_pos hc, hs']⟩
  cases hk : (s.conns c).consumer with
  | absent => exact (hq (.inl hk)).elim
  | returned => exact (hq (.inr hk)).elim
  | selecting epoch =>
    obtain ⟨a, ha, -⟩ := h.sound.consumes (h.joins c) (show (s.conns c).consumer.epoch? = some epoch by rw [hk]; rfl)
    obtain ⟨res, hn⟩ := h.next_returns hw ((h.refines.conns c).session a ha) epoch
    refine hrun ?_
    simp only [consumerStep, hk, ha, hn, Option.bind_eq_bind, Option.bind_some]
    rfl
  | awaiting epoch channel =>
    obtain ⟨j, hj⟩ := (h.joins c).sends epoch channel hk
    obtain hres | hadv : _ ∨ s.Advances cfg := write_advances (h.joins c) hc hj
    · obtain ⟨res, hres⟩ := Option.ne_none_iff_exists'.mp hres
      exact hrun (by simp [consumerStep, hk, hres])
    · exact hadv
  | _ => exact hrun (by simp [consumerStep, hk])

/-- As long as a handler is there, some goroutine can take a step. -/
theorem Reachable.advances (h : Reachable cfg s) (hw : s.accepted < 2 ^ 64) (hc : c < s.accepted)
    (hne : (s.conns c).pc ≠ .finished) : s.Advances cfg := by
  have hrun : ∀ c < s.accepted, (∃ i : Input, i.fail = true ∧ (s.handlerStep cfg c i).isSome = true) →
      s.Advances cfg := by
    rintro c hc ⟨i, hf, hs⟩
    obtain ⟨s', hs'⟩ := Option.isSome_iff_exists.mp hs
    exact ⟨.handler c i, s', fun _ => hf, by rw [step, if_pos hc, hs']⟩
  by_cases hu : s.Unread
  · by_cases hblocked : ∃ channel reply, (s.conns c).pc = .awaiting channel reply ∧
        (s.conns c).client.awaitSend channel = none
    · obtain ⟨channel, reply, hpc, hnone⟩ := hblocked
      obtain ⟨j, hj⟩ := (h.joins c).waits channel reply hpc
      exact (write_advances (h.joins c) hc hj).resolve_left fun hres => hres hnone
    by_cases hjoin : (s.conns c).pc = .joining ∧ ¬ (s.conns c).Quiet
    · exact h.consumer_advances hw hc hjoin.2
    by_cases hdrain : (s.conns c).pc = .waitingWriter ∧ (s.conns c).client.writeDone = false
    · -- The client is closed, so that its writer returns.
      have hp := (h.joins c).place
      rw [hdrain.1] at hp
      have hexit : (s.conns c).client.writerExit = some { (s.conns c).client with writeDone := true } := by
        rw [Client.writerExit, if_pos ⟨hp.1, by simp [hdrain.2]⟩]
      exact ⟨.writerExit c, _, trivial, by rw [step, if_pos hc, hexit]; rfl⟩
    · refine hrun c hc (h.sound.handler_runs (.inl hu) hne ?_ ?_ ?_)
      · exact fun channel reply hpc hnone => hblocked ⟨channel, reply, hpc, hnone⟩
      · exact fun hpc => not_not.mp fun hq => hjoin ⟨hpc, hq⟩
      · exact fun hpc => Bool.eq_true_of_not_eq_false fun hd => hdrain ⟨hpc, hd⟩
  · -- A publisher holds the read lock; it waits for nobody.
    obtain ⟨p, hp, hr⟩ : ∃ p < s.accepted, (s.conns p).pc.reading = true := by
      simpa [Unread] using hu
    refine hrun p hp (h.sound.handler_runs (.inr hr) (fun e => ?_) (fun _ _ e => ?_) (fun e => ?_) (fun e => ?_)) <;>
    · rw [e] at hr
      cases hr

/-! ## Every handler returns -/

/-- What is left when all handlers have returned. -/
structure Closed (s : Server) : Prop where
  handlers : ∀ c < s.accepted, (s.conns c).pc = .finished
  consumers : ∀ c < s.accepted, (s.conns c).Quiet
  /-- A connection without a CONNECT has no writer. -/
  writers : ∀ c < s.accepted, (s.conns c).client.writeDone = true ∨ (s.conns c).connect = ({} : Conn).connect
  clients : ∀ id : Bytes, s.clients[id]? = none
  sessions : ∀ (id : Bytes) r, s.sessions.data[id]? = some r → (s.state r).connected = false

theorem Leads.of_finished {pc : Pc} (h : Leads pc .finished) : pc = .closingSession ∨ pc = .handshake := by
  obtain ⟨-, hne⟩ | ⟨-, e⟩ | e | ⟨-, e⟩ | ⟨-, e⟩ | ⟨-, e⟩ | ⟨hpc, -⟩ | ⟨hpc, -⟩ := h.stage
  · exact (hne rfl).elim
  · cases e
  · cases e
  · cases e
  · cases e
  · cases e
  · exact .inl hpc
  · exact .inr hpc

/-- A handler that has returned has released its session. -/
theorem Reachable.released (h : Reachable cfg s) : ∀ c a, (s.conns c).pc = .finished → (s.conns c).active = some a →
    a.done = true := by
  obtain ⟨g, hg⟩ := h.recorded (fun _ _ g => g) ()
  refine hg.invariant (I := fun s _ => ∀ c a, (s.conns c).pc = .finished → (s.conns c).active = some a → a.done = true)
    (fun _ _ _ _ _ e => by cases e) ?_
  intro s _ a s' hr hi hstep c b hpc hb
  have hm := step_conn hr.reachable.refines hstep c
  generalize s'.conns c = k at hm hpc hb
  cases hm with
  | @own i e f ht =>
    have hl := ht.leads
    rw [hpc] at hl
    have hp := hl.of_finished
    cases ht with
    | release =>
      cases hb
      rfl
    | handshake hpc' =>
      have hb : ((s.conns c).handshake cfg i).active = some b := hb
      have hn := ((hr.reachable.joins c).unread hpc').2
      obtain e | ⟨connect, -, e⟩ := (s.conns c).handshake_cases cfg i <;>
      · rw [e] at hb
        cases hn.symm.trans hb
    | goes hpc' hg =>
      rw [hpc'] at hp
      obtain rfl | rfl := hp
      · cases hg with
        | finished hn => cases hn.symm.trans hb
      · cases hg
    | sends hpc' hs =>
      rw [hpc'] at hp
      obtain rfl | rfl := hp <;> cases hs
    | calls hpc' _ hcall =>
      rw [hpc'] at hp
      obtain rfl | rfl := hp <;> cases hcall
    | denied hpc' hcase => obtain ⟨_, -, rfl⟩ | ⟨_, _, _, _, -, rfl⟩ := hcase <;> cases hpc
    | _ => simp_all
  | consumer ht => cases ht <;> exact hi c b hpc hb
  | @effect c' i e f =>
    have hpeer := e.peer c' s c
    rw [hpeer.pc] at hpc
    generalize (e.apply c' s).conns c = k at hpeer hb
    cases hpeer with
    | beginClosing now =>
      obtain ⟨b', hb', rfl⟩ := Option.map_eq_some_iff.mp hb
      rw [ActiveConnection.beginClosing]
      split <;> exact hi c b' hpc hb'
    | _ => exact hi c b hpc hb
  | write | writerExit | same => exact hi c b hpc hb

theorem Reachable.closed (h : Reachable cfg s) (hall : ∀ c < s.accepted, (s.conns c).pc = .finished) : s.Closed := by
  have hinv := h.refines.reached.inv
  have howned : ∀ c, (s.conns c).owned = none := by
    intro c
    unfold Conn.owned
    cases ha : (s.conns c).active with
    | none => rfl
    | some a =>
      have hc : c < s.accepted := h.sound.accepted c fun e => by
        have := (h.joins c).unread e
        simp [ha] at this
      simp [h.released c a (hall c hc) ha]
  refine ⟨hall, fun c hc => ?_, fun c hc => ?_, fun id => ?_, fun id r hr => ?_⟩
  · have hp := (h.joins c).place
    rw [hall c hc] at hp
    exact hp.1
  · have hp := (h.joins c).place
    rw [hall c hc] at hp
    exact hp.2.imp_right And.left
  · refine Option.eq_none_iff_forall_ne_some.mpr fun c hc => ?_
    obtain ⟨-, r, hr⟩ := hinv.clients hc
    rw [show (s.registry.holders c).owned = none from howned c] at hr
    cases hr
  · refine Bool.eq_false_of_not_eq_true fun hcon => ?_
    obtain ⟨c, hc⟩ := h.refines.reached.attended hr hcon
    rw [show (s.registry.holders c).owned = none from howned c] at hc
    cases hc

/-- **Shutdown.** From every state of the server, whatever its goroutines are doing, every handler returns once the
context has ended, in whatever order the goroutines run: no wait is part of a cycle. Then no consumer and no writer is
left, no client is registered, and the sessions that stay are disconnected. Fewer than `2 ^ 64` connections were
accepted, so that no epoch has wrapped and `Next` returns. -/
theorem shutdown_completes (cfg : Config) (s : Server) (h : Reachable cfg s) (hw : s.accepted < 2 ^ 64) (late : Nat) :
    Sys.Inevitable (Stops cfg) (fun x => x.1.Closed) (s, late) := by
  refine Sys.inevitable_of_rank (I := fun x => Reachable cfg x.1 ∧ x.1.accepted < 2 ^ 64)
    (fun x => (toLex (x.2, x.1.work) : ℕ ×ₗ _)) ?_ ?_ ⟨h, hw⟩
  · rintro ⟨s, n⟩ ⟨h, hw⟩
    by_cases hall : ∀ c < s.accepted, (s.conns c).pc = .finished
    · exact .inl (h.closed hall)
    · obtain ⟨c, hc, hne⟩ : ∃ c < s.accepted, (s.conns c).pc ≠ .finished := by simpa using hall
      obtain ⟨a, s', ha, hs⟩ := h.advances hw hc hne
      exact .inr ⟨(s', n), .act ha hs⟩
  · rintro ⟨s, n⟩ ⟨s', n'⟩ ⟨h, hw⟩ hstops
    cases hstops with
    | act ha hs =>
      refine ⟨⟨Reachable.after h hs, ?_⟩, Prod.Lex.toLex_lt_toLex.mpr (.inr ⟨rfl, step_work h.refines ha hs⟩)⟩
      rw [step_accepted h.refines (by rintro rfl; exact ha) hs]
      exact hw
    | late ha hs =>
      refine ⟨⟨Reachable.after h hs, ?_⟩, Prod.Lex.toLex_lt_toLex.mpr (.inl (Nat.lt_succ_self n'))⟩
      rw [step_accepted h.refines (by rintro rfl; obtain ⟨_, _, e, -⟩ | ⟨_, _, e⟩ := ha <;> cases e) hs]
      exact hw

/-- Connection 1 waits for connection 0, from which it takes over; connection 0 serves its client. -/
def waitsForOwner : List Action :=
  connects 0 99 false ++ (connects 1 99 false).take 4 ++ [.handler 1 {}]

theorem shutdown_completes_takeover : ∃ s, Reachable openConfig s ∧ (s.conns 1).pc.entering = true ∧
    (s.conns 0).consumer.started = true ∧
    Sys.Inevitable (Stops openConfig) (fun x => x.1.Closed) (s, 1) := by
  have hrun : ((Sys.run (step openConfig) fresh waitsForOwner).map fun s =>
      ((s.conns 1).pc.entering, (s.conns 0).consumer.started, s.accepted)) = some (true, true, 2) := by decide +kernel
  obtain ⟨s, hs, he⟩ := Option.map_eq_some_iff.mp hrun
  obtain ⟨hwaits, he⟩ := Prod.mk.inj he
  obtain ⟨hstarted, haccepted⟩ := Prod.mk.inj he
  exact ⟨s, reachable_fresh hs, hwaits, hstarted,
    shutdown_completes openConfig s (reachable_fresh hs) (by rw [haccepted]; decide) 1⟩

end Server

end OrbMQ
