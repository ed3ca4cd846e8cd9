import OrbMQ.Server.Join

/-!
# The sessions of the server are those of the store

The server reaches its sessions only through the calls of the store: `Effect.calls` lists those of a section,
and `Reachable.stored` gives for every reachable server a run of calls that leads to its store. So the accounts
and windows of the store hold for the server, in whatever order its goroutines make the calls.

The windows need that no epoch wraps. Every connection begins one delivery, so that an epoch is at most the number
of connections.
-/

namespace OrbMQ

open Go

/-- The calls of `openSession`. -/
def openCalls (connect : ConnectPacket) (identity : Bytes) (i : Input) : List StoreOp :=
  .expireSession connect.clientID i.now ::
    ((if connect.cleanSession then [.delete connect.clientID] else []) ++
      [.getOrCreateOwned i.later connect.clientID identity])

/-- The calls on the store that the effect of a section of `c` makes. -/
def Effect.calls (c : Nat) (s : Server) : Effect → List StoreOp
  | .call r op _ => [.on r op]
  | .open i => openCalls (s.conns c).connect (s.conns c).identity i
  | .acquire i r => openCalls (s.conns c).connect (s.conns c).identity i ++ [.on r .markConnected]
  | .release owner =>
    if owner.cleanSession then [.delete (s.conns c).client.id]
    else [.on owner.session (.markDisconnectedAt owner.disconnectedAt)]
  | _ => []

/-- The consumer was started. -/
def Consumer.started : Consumer → Bool
  | .absent => false
  | _ => true

theorem Consumer.started_iff {k : Consumer} : k.started = true ↔ k ≠ .absent := by
  cases k <;> simp [started]

namespace Server

variable {cfg : Config} {s s' : Server} {c : Nat} {i : Input} {e : Effect} {f : Conn → Conn}

theorem run_openCalls (s : Server) (connect : ConnectPacket) (identity : Bytes) (i : Input) :
    Sys.run StoreOp.step s.sessions (openCalls connect identity i) =
      some (s.openSession connect identity i).2.sessions := by
  unfold openCalls openSession
  cases connect.cleanSession <;> rfl

/-- A section reaches the store by its calls. -/
theorem Turn.run_calls (h : s.Refines cfg) (ht : Turn cfg s c i e f) :
    Sys.run StoreOp.step s.sessions (e.calls c s) = some (e.apply c s).sessions := by
  have hcall : ∀ {r : Nat} {op : StateOp} {res : State × Snapshot}, r < s.sessions.allocated →
      op.run s.sessions.limits (s.state r) s.sessions.totals = some res →
      Sys.run StoreOp.step s.sessions [.on r op] = some (s.setSession r res).sessions := by
    intro r op res hr hop
    refine Sys.run_singleton ?_
    rw [StoreOp.step, if_pos hr]
    exact congrArg (Option.map _) hop
  cases ht with
  | begin _ ha => exact hcall ((h.conns c).session _ ha) rfl
  | calls _ ha _ hop => exact hcall ((h.conns c).session _ ha) hop
  | admission hpc hres =>
    refine hcall ?_ (by rw [StateOp.run, hres])
    have := (h.conns c).checked
    rw [hpc] at this
    exact this.2
  | unopened => exact run_openCalls s _ _ i
  | @acquire r present _ _ _ hc ho =>
    refine Sys.run_trans (run_openCalls s _ _ i) (Sys.run_singleton ?_)
    rw [(h.conns c).named.symm] at hc
    obtain ⟨hr, -, -, hst⟩ := h.openSession hc (rfl : s.openSession (s.conns c).connect (s.conns c).identity i = _)
    obtain ⟨hst, -⟩ := hst r present ho
    have hlt : r < (s.openSession (s.conns c).connect (s.conns c).identity i).2.sessions.allocated :=
      (hr.store.stored _ _ hst).1
    rw [StoreOp.step, if_pos hlt]
    rfl
  | @release a hpc _ ha =>
    simp only [Effect.calls, Effect.apply]
    split
    · rfl
    · exact @hcall a.session (.markDisconnectedAt a.disconnectedAt) _ ((h.conns c).session _ ha) rfl
  | _ => rfl

theorem ConsumerTurn.run_calls (h : s.Refines cfg) (ht : ConsumerTurn s c e f) :
    Sys.run StoreOp.step s.sessions (e.calls c s) = some (e.apply c s).sessions := by
  cases ht with
  | @next epoch a d res _ ha hn =>
    refine Sys.run_singleton ?_
    rw [StoreOp.step, if_pos ((h.conns c).session _ ha), StateOp.run]
    rw [show (s.sessions.states a.session).next _ _ _ = _ from hn]
    rfl
  | @wake epoch a state _ ha hst =>
    refine Sys.run_singleton ?_
    rw [StoreOp.step, if_pos ((h.conns c).session _ ha), StateOp.run]
    rw [show (s.sessions.states a.session).receiveChanged = _ from hst]
    rfl
  | _ => rfl

/-! ## Deliveries that begin -/

/-- How many connections have begun their delivery. -/
def started (s : Server) : Nat := ((Finset.range s.accepted).filter fun c => (s.conns c).consumer.started).card

theorem started_le (s : Server) : s.started ≤ s.accepted :=
  (Finset.card_filter_le _ _).trans (Finset.card_range _).le

theorem started_mono (ha : s.accepted ≤ s'.accepted)
    (hc : ∀ c, (s.conns c).consumer.started = true → (s'.conns c).consumer.started = true) :
    s.started ≤ s'.started := by
  refine Finset.card_le_card fun c => ?_
  simp only [Finset.mem_filter, Finset.mem_range]
  exact fun h => ⟨h.1.trans_le ha, hc c h.2⟩

theorem started_lt (ha : s.accepted ≤ s'.accepted)
    (hc : ∀ c, (s.conns c).consumer.started = true → (s'.conns c).consumer.started = true) (hlt : c < s.accepted)
    (h : (s.conns c).consumer = .absent) (h' : (s'.conns c).consumer ≠ .absent) : s.started < s'.started := by
  refine Finset.card_lt_card ((Finset.ssubset_iff_of_subset fun c' => ?_).mpr ⟨c, ?_, ?_⟩)
  · simp only [Finset.mem_filter, Finset.mem_range]
    exact fun h => ⟨h.1.trans_le ha, hc c' h.2⟩
  · simp only [Finset.mem_filter, Finset.mem_range]
    exact ⟨hlt.trans_le ha, Consumer.started_iff.mpr h'⟩
  · rw [Finset.mem_filter, h]
    simp [Consumer.started]

/-- A section begins no delivery, unless it is the one that starts its consumer. -/
theorem Turn.begins (ht : Turn cfg s c i e f) (r : Nat) : StoreOp.begins r (e.calls c s) = 0 ∨
    ((s.conns c).pc = .beginning ∧ StoreOp.begins r (e.calls c s) ≤ 1) := by
  have hopen : StoreOp.begins r (openCalls (s.conns c).connect (s.conns c).identity i) = 0 := by
    unfold openCalls
    split <;> rfl
  cases ht with
  | begin hpc => exact .inr ⟨hpc, List.countP_le_length⟩
  | calls _ _ hcall => cases hcall <;> exact .inl (by simp [StoreOp.begins, Effect.calls, StoreOp.isBegin, StateOp.isBegin])
  | admission => exact .inl (by simp [StoreOp.begins, Effect.calls, StoreOp.isBegin, StateOp.isBegin])
  | unopened => exact .inl hopen
  | acquire => exact .inl (by rw [Effect.calls, StoreOp.begins_snoc, hopen]; simp [StoreOp.isBegin, StateOp.isBegin])
  | release =>
    simp only [Effect.calls]
    split <;> exact .inl (by simp [StoreOp.begins, StoreOp.isBegin, StateOp.isBegin])
  | _ => exact .inl rfl

/-- A consumer that was started stays so. -/
theorem step_started (h : s.Refines cfg) {a : Action} (hs : s.step cfg a = some s') (c : Nat)
    (hc : (s.conns c).consumer.started = true) : (s'.conns c).consumer.started = true := by
  have hm := step_conn h hs c
  rw [Consumer.started_iff] at hc ⊢
  generalize s'.conns c = k at hm
  cases hm with
  | @own i e f ht =>
    obtain e' | ⟨-, _, -, -, e', -⟩ := ht.consumer ((e.apply c s).conns c)
    · rwa [e', (e.peer c s c).consumer]
    · simp [e']
  | consumer ht =>
    cases ht with
    | @next _ _ d => cases d <;> simp
    | send => dsimp only; split <;> simp
    | sent _ hcase => obtain rfl | rfl := hcase <;> simp
    | _ => simp
  | effect => rwa [(Effect.peer _ _ _ c).consumer]
  | _ => exact hc

/-- The calls that a step makes begin at most as many deliveries as consumers are started. -/
theorem step_calls (h : s.Refines cfg) (hj : ∀ c, (s.conns c).Joins) {a : Action} (hs : s.step cfg a = some s') :
    ∃ ops, Sys.run StoreOp.step s.sessions ops = some s'.sessions ∧
      ∀ r, StoreOp.begins r ops + s.started ≤ s'.started := by
  have hmono := started_mono (step_later h hs).accepted (step_started h hs)
  have hidle : s'.sessions = s.sessions → ∃ ops, Sys.run StoreOp.step s.sessions ops = some s'.sessions ∧
      ∀ r, StoreOp.begins r ops + s.started ≤ s'.started :=
    fun e => ⟨[], by rw [e]; rfl, fun r => (Nat.zero_add _).trans_le hmono⟩
  cases step_moves h hs with
  | accept => exact hidle rfl
  | @handler c i e f hc ht =>
    refine ⟨e.calls c s, ht.run_calls h, fun r => ?_⟩
    obtain e' | ⟨hpc, hle⟩ := ht.begins r
    · rw [e', Nat.zero_add]
      exact hmono
    · have habs : (s.conns c).consumer = .absent := by
        have hp := (hj c).place
        rw [hpc] at hp
        exact hp
      have hbegun : (((e.apply c s).setConn c f).conns c).consumer ≠ .absent := by
        cases ht with
        | begin => rw [conns_setConn, if_pos rfl]; simp
        | goes hpc' hg => rw [hpc] at hpc'; exact (hg.joins.1 hpc'.symm).elim
        | sends hpc' hs => rw [hpc] at hpc'; subst hpc'; cases hs
        | calls hpc' _ hcall => rw [hpc] at hpc'; subst hpc'; cases hcall
        | denied hpc' hcase => rw [hpc] at hpc'; subst hpc'; obtain ⟨_, e, -⟩ | ⟨_, _, _, _, e, -⟩ := hcase <;> cases e
        | _ => simp_all
      have := started_lt (step_later h hs).accepted (step_started h hs) hc habs hbegun
      omega
  | @consumer c i e f hc ht =>
    refine ⟨e.calls c s, ht.run_calls h, fun r => ?_⟩
    have hb : StoreOp.begins r (e.calls c s) = 0 := by
      cases ht <;> simp [StoreOp.begins, Effect.calls, StoreOp.isBegin, StateOp.isBegin]
    rw [hb, Nat.zero_add]
    exact hmono
  | write => exact hidle rfl
  | writerExit => exact hidle rfl
  | @sweep now order _ hr =>
    refine ⟨[.expire now order], Sys.run_singleton (by rw [StoreOp.step, if_pos hr]; rfl), fun r => ?_⟩
    exact (Nat.zero_add _).trans_le hmono

/-- **The store of a server** was reached by calls, which began at most one delivery for each connection. -/
theorem Reachable.stored (h : Reachable cfg s) : ∃ limits st₀ ops, Store.newWithLimits limits = .ok st₀ ∧
    Sys.run StoreOp.step st₀ ops = some s.sessions ∧ ∀ r, StoreOp.begins r ops ≤ s.started := by
  obtain ⟨broker, sessions, retainedLimits, limits, acts, hb, hst, hrun⟩ := h
  refine ⟨limits, sessions, ?_⟩
  have hinv := Sys.run_history (I := fun acts s => ∃ ops, Sys.run StoreOp.step sessions ops = some s.sessions ∧
    ∀ r, StoreOp.begins r ops ≤ s.started) ⟨[], rfl, fun _ => Nat.zero_le _⟩ ?_ hrun
  · obtain ⟨ops, hops, hbegins⟩ := hinv
    exact ⟨ops, hst, hops, hbegins⟩
  · rintro acts s a s' hrun' ⟨ops, hops, hbegins⟩ hstep
    have hr : Reachable cfg s := ⟨broker, sessions, retainedLimits, limits, acts, hb, hst, hrun'⟩
    obtain ⟨ops', hops', hbegins'⟩ := step_calls hr.refines hr.joins hstep
    refine ⟨ops ++ ops', Sys.run_trans hops hops', fun r => ?_⟩
    have h1 := hbegins r
    have h2 := hbegins' r
    rw [StoreOp.begins, List.countP_append]
    unfold StoreOp.begins at h1 h2
    omega

/-! ## What follows for the sessions -/

/-- Fewer connections than there are epochs. -/
theorem Reachable.tracked (h : Reachable cfg s) (hw : s.accepted < 2 ^ 64) : ∃ ops,
    Tracked s.sessions.limits ops s.sessions ∧ ∀ r, StoreOp.begins r ops ≤ s.started ∧ StoreOp.begins r ops < 2 ^ 64 := by
  obtain ⟨limits, st₀, ops, hnew, hrun, hbegins⟩ := h.stored
  obtain ⟨hl, rfl⟩ := newWithLimits_ok hnew
  have htr := tracked_run hl hrun
  refine ⟨ops, htr.limits ▸ htr, fun r => ⟨hbegins r, ?_⟩⟩
  have h1 := hbegins r
  have h2 := s.started_le
  omega

/-- Every call of `Next` on a session of the server returns. -/
theorem Reachable.next_returns (h : Reachable cfg s) (hw : s.accepted < 2 ^ 64) {r : Nat} (hr : r < s.sessions.allocated)
    (epoch : UInt64) : ∃ res, (s.state r).next s.sessions.limits epoch s.sessions.totals = some res := by
  obtain ⟨ops, htr, hb⟩ := h.tracked hw
  cases hd : (s.state r).deleted with
  | true => exact ⟨_, State.next_of_not_ready (fun hready => by simpa [hd] using hready.live) _⟩
  | false =>
    obtain ⟨w, hwin⟩ := htr.window r hr (hb r).2 hd
    obtain ⟨e, -⟩ | ⟨-, -, _, _, _, -, -, e⟩ | ⟨-, -, _, _, _, -, -, -, -, -, e⟩ :=
      hwin.next_cases htr.valid.inflight.1 epoch s.sessions.totals <;> exact ⟨_, e⟩

/-- The sessions of a server are kept in order. -/
structure SessionLaws (cfg : Config) (s : Server) : Prop where
  accounts : Accounts s.sessions
  window : ∀ (id : Bytes) r, s.sessions.data[id]? = some r → WindowLaws s.sessions.limits (s.state r)
  /-- An epoch counts deliveries that began, so it never wraps. -/
  epoch : ∀ r < s.sessions.allocated, (s.state r).epoch.toNat ≤ s.started
  /-- A consumer that calls `Next` gets an answer. -/
  next : ∀ c epoch, c < s.accepted → (s.conns c).consumer = .selecting epoch →
    ∀ i, ∃ s', s.step cfg (.consumer c i) = some s'

/-- In whatever order the goroutines of a server use its sessions, the counters of the store are exact and within
its limits, the messages in flight of every session are in order, and no consumer is stuck in `Next`. -/
theorem session_laws (cfg : Config) (s : Server) (h : Reachable cfg s) (hw : s.accepted < 2 ^ 64) :
    s.SessionLaws cfg := by
  have hinv := h.refines.store
  obtain ⟨ops, htr, hb⟩ := h.tracked hw
  refine ⟨hinv.exact, fun id r hr => ?_, fun r hr => ?_, fun c epoch hc he i => ?_⟩
  · obtain ⟨hlt, -⟩ := hinv.stored id r hr
    obtain ⟨w, hwin⟩ := htr.window r hlt (hb r).2 ((hinv.exact.live r hlt).mpr ⟨id, hr⟩)
    exact hwin.windowLaws htr.valid
  · rw [show (s.state r).epoch.toNat = _ from htr.epoch r hr (hb r).2]
    exact (hb r).1
  · have hruns : (s.conns c).consumer.epoch? = some epoch := by
      rw [he]
      rfl
    obtain ⟨a, ha, -⟩ := h.sound.consumes (h.joins c) hruns
    obtain ⟨res, hn⟩ := h.next_returns hw ((h.refines.conns c).session a ha) epoch
    rw [step, if_pos hc, consumerStep]
    simp only [he, ha, hn, Option.bind_eq_bind, Option.bind_some]
    exact ⟨_, rfl⟩

/-- A client gets a message of its own, which its consumer has sent. -/
def echoes : List Action :=
  connects 0 99 false ++ subscribes 0 97 ++ [.handler 0 {}, .handler 0 {}, .handler 0 {}, .handler 0 {},
    .handler 0 { raw := [0x32, 6, 0, 1, 97, 0, 7, 120] }, .handler 0 {}, .handler 0 {}, .handler 0 {},
    .handler 0 { subs := [⟨[99], 0, 1⟩] }, .handler 0 {}, .handler 0 {}, .consumer 0 {}, .consumer 0 {}, .consumer 0 {}]

theorem session_laws_echoes : ∃ s, Reachable openConfig s ∧ (s.state 0).inflight.size = 1 ∧ s.started = 1 ∧
    s.SessionLaws openConfig := by
  have hrun : ((Sys.run (step openConfig) fresh echoes).map fun s =>
      ((s.state 0).inflight.size, s.started, s.accepted)) = some (1, 1, 1) := by decide +kernel
  obtain ⟨s, hs, he⟩ := Option.map_eq_some_iff.mp hrun
  obtain ⟨hsize, he⟩ := Prod.mk.inj he
  obtain ⟨hstarted, haccepted⟩ := Prod.mk.inj he
  exact ⟨s, reachable_fresh hs, hsize, hstarted,
    session_laws openConfig s (reachable_fresh hs) (by rw [haccepted]; decide)⟩

end Server

end OrbMQ
