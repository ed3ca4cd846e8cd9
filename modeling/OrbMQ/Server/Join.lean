import OrbMQ.Server.Response

/-!
# The goroutines of a connection are joined

A connection has a handler, a writer and, from `BeginDelivery` on, a consumer. The deferred function of its
handler closes the client, waits for the consumer and for the writer, and only then releases the session.

* `Pc.stage`: how far a handler has come with that. `Stage.Fits` says what is known of the other two
  goroutines at each stage, and `Conn.Joins` that a connection is so; every step keeps it (`Joins.step`).
* `Server.Current`: a consumer that runs has the epoch of its session.
* `Server.session_exclusive`: while a connection owns a session, no goroutine of another one is left that could
  deliver from it or write to its client.
-/

namespace OrbMQ

open Go

/-! ## Clients -/

/-- What every function keeps of a client. -/
structure Client.Runs (c c' : Client) : Prop where
  inv : c'.Inv
  grows : c.Grows c'
  done : c.done = true → c'.done = true
  writeDone : c.writeDone = true → c'.writeDone = true
  stopped : (c.writeDone = true → c.done = true) → c'.writeDone = true → c'.done = true

namespace Client

variable {c c' : Client}

theorem enqueueWrite_flags (c : Client) (write : QueuedWrite) :
    (c.enqueueWrite write).2.done = c.done ∧ (c.enqueueWrite write).2.writeDone = c.writeDone := by
  unfold enqueueWrite
  repeat' split
  all_goals exact ⟨rfl, rfl⟩

theorem Runs.of_flags (hg : c'.Inv ∧ c.Grows c') (hd : c'.done = c.done) (hw : c'.writeDone = c.writeDone) :
    c.Runs c' :=
  ⟨hg.1, hg.2, fun h => hd ▸ h, fun h => hw ▸ h, fun h h' => hd ▸ h (hw ▸ h')⟩

theorem Runs.refl (h : c.Inv) : c.Runs c := .of_flags ⟨h, .refl c⟩ rfl rfl

theorem Runs.enqueue (h : c.Inv) (data : Bytes) : c.Runs (c.enqueue data).2 :=
  .of_flags (enqueue_grows h data) (enqueueWrite_flags c _).1 (enqueueWrite_flags c _).2

theorem Runs.send (h : c.Inv) (data : Bytes) : c.Runs (c.send data).2 :=
  .of_flags (send_grows h data) (enqueueWrite_flags _ _).1 (enqueueWrite_flags _ _).2

theorem Runs.close (h : c.Inv) : c.Runs c.close := by
  obtain ⟨hi, hg⟩ := stop h true c.writeDone fun hd => hd
  exact ⟨hi, hg, fun _ => rfl, fun hd => hd, fun _ _ => rfl⟩

theorem Runs.writeNext (h : c.Inv) {n : Nat} {err : Option Err} (hw : c.writeNext n err = some c') : c.Runs c' := by
  obtain ⟨hi, hg⟩ := writeNext_grows h hw
  unfold Client.writeNext at hw
  repeat' split at hw
  all_goals cases hw
  · exact ⟨hi, hg, fun _ => rfl, fun _ => rfl, fun _ _ => rfl⟩
  · exact ⟨hi, hg, fun hd => hd, fun hd => hd, fun hd => hd⟩

theorem Runs.writerExit (h : c.Inv) (hw : c.writerExit = some c') : c.Runs c' := by
  obtain ⟨hi, hg⟩ := writerExit_grows h hw
  unfold Client.writerExit at hw
  split at hw <;> cases hw
  rename_i hd
  exact ⟨hi, hg, fun h => h, fun _ => rfl, fun _ _ => hd.1⟩

end Client

/-! ## The stages of a handler -/

/-- Before the delivery begins, in `serve`, and the parts of the deferred function. -/
inductive Stage where
  | opening
  | serving
  | closing
  | joining
  | draining
  | releasing
  | ended
  deriving DecidableEq

def Pc.stage : Pc → Stage
  | .handshake | .authenticating | .rejecting _ | .acquiring | .takingOver _ | .waitingFor _ | .connack _
  | .readying | .beginning | .awaiting _ .refusal | .awaiting _ .connack => .opening
  | .deferred | .closingClient => .closing
  | .joining => .joining
  | .waitingWriter => .draining
  | .closingSession => .releasing
  | .finished => .ended
  | _ => .serving

/-- A handler stays at its stage or goes on to the next one; it can close from everywhere. -/
theorem Server.Leads.stage {pc pc' : Pc} (h : Server.Leads pc pc') :
    (pc'.stage = pc.stage ∧ pc' ≠ .finished) ∨ (pc = .beginning ∧ pc' = .serving) ∨ pc' = .deferred ∨
      (pc = .closingClient ∧ pc' = .joining) ∨ (pc = .joining ∧ pc' = .waitingWriter) ∨
      (pc = .waitingWriter ∧ pc' = .closingSession) ∨ (pc = .closingSession ∧ pc' = .finished) ∨
      (pc = .handshake ∧ pc' = .finished) := by
  cases h with
  | @written channel reply => cases reply <;> simp [Pc.stage, Reply.sent]
  | @unwritten channel reply => cases reply <;> simp [Pc.stage, Reply.failed]
  | _ => simp [Pc.stage]

theorem Server.Leads.awaits {pc : Pc} {channel : Nat} {reply : Reply} (h : Server.Leads pc (.awaiting channel reply)) :
    pc.stage = (Pc.awaiting channel reply).stage := by
  obtain ⟨e, -⟩ | ⟨-, e⟩ | e | ⟨-, e⟩ | ⟨-, e⟩ | ⟨-, e⟩ | ⟨-, e⟩ | ⟨-, e⟩ := h.stage
  · exact e.symm
  all_goals cases e

theorem Server.Leads.ne_handshake {pc pc' : Pc} (h : Server.Leads pc pc') : pc' ≠ .handshake := by
  cases h with
  | @written channel reply => cases reply <;> simp [Reply.sent]
  | @unwritten channel reply => cases reply <;> simp [Reply.failed]
  | _ => simp

theorem Pc.stage_ended {pc : Pc} (h : pc.stage = .ended) : pc = .finished := by
  unfold Pc.stage at h
  split at h <;> first | rfl | cases h

namespace Conn

variable {k k' : Conn}

/-- The consumer was not started, or it is over. -/
def Quiet (k : Conn) : Prop := k.consumer = .absent ∨ k.consumer = .returned

end Conn

/-- What is known of a connection whose handler is at this stage. A handler that never got a CONNECT has no
client. -/
def Stage.Fits (k : Conn) : Stage → Prop
  | .opening => k.consumer = .absent
  | .serving => k.consumer ≠ .absent
  | .closing => True
  | .joining => k.client.done = true
  | .draining => k.client.done = true ∧ k.Quiet
  | .releasing => k.client.writeDone = true ∧ k.Quiet
  | .ended => k.Quiet ∧ (k.client.writeDone = true ∨ k.connect = ({} : Conn).connect ∧ k.active = none)

structure Conn.Joins (k : Conn) : Prop where
  client : k.client.Inv
  stopped : k.client.writeDone = true → k.client.done = true
  unread : k.pc = .handshake → k.connect = ({} : Conn).connect ∧ k.active = none
  place : k.pc.stage.Fits k
  /-- The write that a handler or a consumer waits for was accepted. -/
  waits : ∀ channel reply, k.pc = .awaiting channel reply → ∃ j, k.client.Tracks channel j
  sends : ∀ epoch channel, k.consumer = .awaiting epoch channel → ∃ j, k.client.Tracks channel j

namespace Conn.Joins

variable {k k' : Conn}

/-- Something happens to the client. -/
theorem withClient (h : k.Joins) {client : Client} (hr : k.client.Runs client) :
    ({ k with client } : Conn).Joins := by
  refine ⟨hr.inv, hr.stopped h.stopped, h.unread, ?_, fun channel reply e => ?_, fun epoch channel e => ?_⟩
  · have hp := h.place
    show k.pc.stage.Fits { k with client }
    cases hs : k.pc.stage <;> rw [hs] at hp
    · exact hp
    · exact hp
    · exact hp
    · exact hr.done hp
    · exact ⟨hr.done hp.1, hp.2⟩
    · exact ⟨hr.writeDone hp.1, hp.2⟩
    · exact ⟨hp.1, hp.2.imp_left hr.writeDone⟩
  · obtain ⟨j, hj⟩ := h.waits channel reply e
    exact ⟨j, hr.grows.tracks channel j hj⟩
  · obtain ⟨j, hj⟩ := h.sends epoch channel e
    exact ⟨j, hr.grows.tracks channel j hj⟩

theorem peer (h : k.Joins) (hp : k.Peer k') : k'.Joins := by
  cases hp with
  | same => exact h
  | enqueue raw => exact h.withClient (.enqueue h.client raw)
  | close => exact h.withClient (.close h.client)
  | beginClosing now =>
    refine ⟨h.client, h.stopped, fun e => ?_, ?_, h.waits, h.sends⟩
    · obtain ⟨hc, ha⟩ := h.unread e
      exact ⟨hc, by rw [ha]; rfl⟩
    · have hp := h.place
      show k.pc.stage.Fits { k with active := k.active.map (·.beginClosing now) }
      cases hs : k.pc.stage <;> rw [hs] at hp
      case ended => exact ⟨hp.1, hp.2.imp_right fun hn => ⟨hn.1, by rw [hn.2]; rfl⟩⟩
      all_goals exact hp

/-- The handler goes on at another place. The sections that begin, close, join, drain and finish come after what
the next stage needs. -/
theorem move (h : k.Joins) {pc : Pc} (hl : Server.Leads k.pc pc) (hbegin : k.pc ≠ .beginning)
    (hclose : k.pc = .closingClient → k.client.done = true) (hjoin : k.pc = .joining → k.Quiet)
    (hdrain : k.pc = .waitingWriter → k.client.writeDone = true) (hread : k.pc ≠ .handshake)
    (hwait : ∀ channel reply, pc ≠ .awaiting channel reply) {connect : ConnectPacket} {identity : Bytes}
    {active : Option ActiveConnection} : ({ k with connect, identity, active, pc } : Conn).Joins := by
  refine ⟨h.client, h.stopped, fun e => (hl.ne_handshake e).elim, ?_,
    fun channel reply e => (hwait channel reply e).elim, h.sends⟩
  have hp := h.place
  show pc.stage.Fits { k with connect, identity, active, pc }
  obtain ⟨e, hf⟩ | ⟨e, -⟩ | rfl | ⟨e, rfl⟩ | ⟨e, rfl⟩ | ⟨e, rfl⟩ | ⟨e, rfl⟩ | ⟨e, -⟩ := hl.stage
  · rw [e]
    cases hs : k.pc.stage <;> rw [hs] at hp
    case ended => exact (hf (Pc.stage_ended (e.trans hs))).elim
    all_goals exact hp
  · exact (hbegin e).elim
  · trivial
  · exact hclose e
  · have hq := hjoin e
    rw [e] at hp
    exact ⟨hp, hq⟩
  · have hd := hdrain e
    rw [e] at hp
    exact ⟨hd, hp.2⟩
  · rw [e] at hp
    exact ⟨hp.2, .inl hp.1⟩
  · exact (hread e).elim

/-- The packet that a handler sends is in the queue, and it waits for it, or it is refused. -/
theorem sendPacket (h : k.Joins) {pkt : Packet} {reply : Reply}
    (hl : ∀ channel, Server.Leads k.pc (.awaiting channel reply) ∧ Server.Leads k.pc reply.failed)
    (hbegin : k.pc ≠ .beginning) (hread : k.pc ≠ .handshake) : (k.sendPacket pkt reply).Joins := by
  have hfail : ∀ client, k.client.Runs client → ({ k with client, pc := reply.failed } : Conn).Joins := by
    intro client hr
    have hstage : k.pc.stage = .opening ∨ k.pc.stage = .serving := by
      rw [(hl 0).1.awaits]
      cases reply <;> simp [Pc.stage]
    have hnot : k.pc.stage ≠ .closing ∧ k.pc.stage ≠ .joining ∧ k.pc.stage ≠ .draining := by
      obtain e | e := hstage <;> simp [e]
    refine (h.withClient hr).move (hl 0).2 hbegin (fun e => (hnot.1 (congrArg Pc.stage e)).elim)
      (fun e => (hnot.2.1 (congrArg Pc.stage e)).elim) (fun e => (hnot.2.2 (congrArg Pc.stage e)).elim) hread ?_
    cases reply <;> simp [Reply.failed]
  unfold Conn.sendPacket
  split
  · exact hfail _ (.refl h.client)
  · rename_i raw _
    have hr := Client.Runs.send h.client raw
    split <;> rename_i hsend <;> rw [hsend] at hr
    · exact hfail _ hr
    · rename_i channel client
      have hlead := (hl channel).1
      have hk := h.withClient hr
      refine ⟨hk.client, hk.stopped, fun e => (by cases e), ?_, fun channel' reply' e => ?_, hk.sends⟩
      · have hp := hk.place
        show (Pc.awaiting channel reply).stage.Fits { k with client, pc := .awaiting channel reply }
        change k.pc.stage.Fits _ at hp
        rw [← hlead.awaits]
        cases hs : k.pc.stage <;> rw [hs] at hp <;> exact hp
      · cases e
        exact ⟨_, (Client.send_tracks hsend).2⟩

end Conn.Joins

namespace Server

variable {cfg : Config} {s s' : Server} {c : Nat} {i : Input} {e : Effect} {f : Conn → Conn}

/-- A section that only goes on has nothing left to wait for. -/
theorem Goes.joins {pc pc' : Pc} (hg : Goes cfg s c i pc pc') : pc ≠ .beginning ∧ pc ≠ .handshake ∧
    pc ≠ .closingClient ∧ (pc = .joining → (s.conns c).Quiet) ∧
    (pc = .waitingWriter → (s.conns c).client.writeDone = true) ∧ ∀ channel reply, pc' ≠ .awaiting channel reply := by
  cases hg with
  | joined hq => exact ⟨by simp, by simp, by simp, fun _ => hq, by simp, by simp⟩
  | drained hd => simpa using hd
  | @returned origin p err =>
    cases origin with
    | will => simp [published]
    | packet =>
      simp only [published]
      repeat' split
      all_goals simp
  | @written channel reply => cases reply <;> simp [Reply.sent]
  | @unwritten channel reply => cases reply <;> simp [Reply.failed]
  | _ => simp

theorem Calls.joins {r : Nat} {pc pc' : Pc} {op : StateOp} (hcall : Calls cfg s i r pc op pc') :
    pc.stage = .serving ∧ pc'.stage = .serving ∧ ∀ channel reply, pc' ≠ .awaiting channel reply := by
  cases hcall with
  | @resume ok => cases ok <;> simp [Pc.stage]
  | _ => simp [Pc.stage]

/-- The connection after a section of its own handler. -/
theorem Turn.joins (ht : Turn cfg s c i e f) (h : (s.conns c).Joins) : (f ((e.apply c s).conns c)).Joins := by
  have hpeer := e.peer c s c
  have hk := h.peer hpeer
  have hl := ht.leads
  -- Most sections only go on at another place.
  have hmove : ∀ {pc pc' : Pc}, (s.conns c).pc = pc → Leads pc pc' → pc ≠ .beginning → pc ≠ .handshake →
      pc ≠ .closingClient → pc ≠ .joining → pc ≠ .waitingWriter → (∀ channel reply, pc' ≠ .awaiting channel reply) →
      ∀ {connect identity active}, ({ (e.apply c s).conns c with connect, identity, active, pc := pc' } : Conn).Joins := by
    intro pc pc' hpc hl hb hh hc hj hw ha connect identity active
    rw [← hpc, ← hpeer.pc] at hb hh hc hj hw hl
    exact hk.move hl hb (fun e => (hc e).elim) (fun e => (hj e).elim) (fun e => (hw e).elim) hh ha
  cases ht with
  | goes hpc hg =>
    obtain ⟨hb, hh, hc, hj, hw, ha⟩ := hg.joins
    rw [← hpc] at hb hh hc hj hw
    exact h.move (hpc ▸ hg.leads) hb (fun e => (hc e).elim) hj hw hh ha
  | handshake hpc =>
    show ((s.conns c).handshake cfg i).Joins
    obtain ⟨hconnect, hactive⟩ := h.unread hpc
    have hp := h.place
    rw [hpc] at hp
    obtain e | ⟨connect, -, e⟩ := (s.conns c).handshake_cases cfg i <;> rw [e]
    · refine ⟨h.client, h.stopped, fun e => (by cases e), ⟨.inl hp, .inr ⟨hconnect, hactive⟩⟩,
        fun _ _ e => (by cases e), h.sends⟩
    · refine ⟨Client.inv_new _, fun e => (by cases e), fun e => (by cases e), hp, fun _ _ e => (by cases e),
        fun epoch channel e => ?_⟩
      rw [show (s.conns c).consumer = .absent from hp] at e
      cases e
  | reject hpc => exact h.sendPacket (fun _ => hpc ▸ ⟨.reject, .rejected⟩) (by simp [hpc]) (by simp [hpc])
  | sends hpc hsend =>
    exact h.sendPacket (hpc ▸ hsend.leads) (by cases hsend <;> simp [hpc]) (by cases hsend <;> simp [hpc])
  | denied hpc hcase =>
    obtain ⟨_, rfl, rfl⟩ | ⟨_, _, _, _, rfl, rfl⟩ := hcase <;>
    · refine hmove hpc (hpc ▸ hl) ?_ ?_ ?_ ?_ ?_ ?_ <;> simp
  | begin hpc =>
    exact ⟨h.client, h.stopped, fun e => (by cases e), by simp [Pc.stage, Stage.Fits], fun _ _ e => (by cases e),
      fun _ _ e => (by cases e)⟩
  | serve hpc =>
    show ((s.conns c).serve cfg i).Joins
    obtain e | ⟨pkt, -, e⟩ := (s.conns c).serve_cases cfg i <;> rw [e]
    · refine h.move (hpc ▸ .failed) ?_ ?_ ?_ ?_ ?_ ?_ <;> simp [hpc]
    · refine h.move (hpc ▸ .serve) ?_ ?_ ?_ ?_ ?_ ?_ <;> simp [hpc]
  | calls hpc _ hcall =>
    obtain ⟨hp, -, ha⟩ := hcall.joins
    refine hmove hpc hcall.leads ?_ ?_ ?_ ?_ ?_ ha <;> rintro rfl <;> cases hp
  | offer hpc _ _ _ hcase =>
    refine (h.withClient (.enqueue h.client _)).move (hpc ▸ hl) ?_ ?_ ?_ ?_ ?_ ?_ <;> simp [hpc]
    obtain rfl | rfl := hcase <;> simp
  | closeClient hpc =>
    refine (h.withClient (.close h.client)).move (hpc ▸ .closeClient) ?_ ?_ ?_ ?_ ?_ ?_ <;> simp [hpc, Client.close]
  | unopened hpc =>
    refine hmove hpc (hpc ▸ hl) ?_ ?_ ?_ ?_ ?_ fun channel reply => ?_ <;> (try split) <;> simp
  | authenticated hpc | takeOver hpc | acquire hpc | closePrevious hpc | ready hpc | route hpc
  | unroute hpc | retain hpc | enqueue hpc | close hpc | admission hpc | beginClosing hpc | release hpc =>
    refine hmove hpc (hpc ▸ hl) ?_ ?_ ?_ ?_ ?_ ?_ <;> simp

/-- A section of the consumer, which the connection has. -/
theorem ConsumerTurn.joins (ht : ConsumerTurn s c e f) (h : (s.conns c).Joins) : (f (s.conns c)).Joins := by
  -- A consumer that runs is not yet joined.
  have hset : ∀ {k : Conn} {consumer : Consumer}, k.Joins → ¬ k.Quiet → consumer ≠ .absent →
      (∀ epoch channel, consumer = .awaiting epoch channel → ∃ j, k.client.Tracks channel j) →
      ({ k with consumer } : Conn).Joins := by
    intro k consumer hk hq hne hs
    refine ⟨hk.client, hk.stopped, hk.unread, ?_, hk.waits, hs⟩
    have hp := hk.place
    show k.pc.stage.Fits { k with consumer }
    cases hst : k.pc.stage <;> rw [hst] at hp
    · exact (hq (.inl hp)).elim
    · exact hne
    · exact hp
    · exact hp
    · exact (hq hp.2).elim
    · exact (hq hp.2).elim
    · exact (hq hp.1).elim
  have hquiet : ¬ (s.conns c).Quiet := by
    unfold Conn.Quiet
    cases ht with
    | leave hc => obtain e | e := hc <;> simp [e]
    | _ => simp_all
  cases ht with
  | poll | leave => exact hset h hquiet (by simp) (by simp)
  | @next epoch a d res => exact hset h hquiet (by cases d <;> simp) (by cases d <;> simp)
  | @send epoch d =>
    have hr := Client.Runs.send h.client d.data
    refine hset (h.withClient hr) hquiet ?_ ?_
    · split <;> simp
    · intro epoch' channel e
      split at e <;> cases e
      rename_i hs
      exact ⟨_, (Client.send_tracks (Prod.ext hs rfl)).2⟩
  | sent _ hcase => obtain rfl | rfl := hcase <;> exact hset h hquiet (by simp) (by simp)
  | fail => exact hset (h.withClient (.close h.client)) hquiet (by simp) (by simp)
  | wake => exact hset h hquiet (by simp) (by simp)

theorem Joins.step (hr : s.Refines cfg) (h : ∀ c, (s.conns c).Joins) {a : Action} (hs : s.step cfg a = some s') (c : Nat) :
    (s'.conns c).Joins := by
  have hm := step_conn hr hs c
  generalize s'.conns c = k at hm
  cases hm with
  | own ht => exact ht.joins (h c)
  | consumer ht => exact ht.joins (h c)
  | write hw => exact (h c).withClient (.writeNext (h c).client hw)
  | writerExit hw => exact (h c).withClient (.writerExit (h c).client hw)
  | effect => exact (h c).peer (Effect.peer _ _ _ c)
  | same => exact h c

theorem Reachable.after (h : Reachable cfg s) {a : Action} (hs : s.step cfg a = some s') : Reachable cfg s' := by
  obtain ⟨broker, sessions, retainedLimits, limits, acts, hb, hst, hrun⟩ := h
  exact ⟨broker, sessions, retainedLimits, limits, acts ++ [a], hb, hst, Sys.run_trans hrun (Sys.run_singleton hs)⟩

theorem Reachable.joins (h : Reachable cfg s) (c : Nat) : (s.conns c).Joins := by
  obtain ⟨broker, sessions, retainedLimits, limits, acts, hb, hst, hrun⟩ := h
  have hinit : ∀ c, (({ broker, sessions } : Server).conns c).Joins := fun c =>
    ⟨Client.inv_new [], fun e => (by cases e), fun _ => ⟨rfl, rfl⟩, rfl, fun _ _ e => (by cases e), fun _ _ e => (by cases e)⟩
  have hinv := Sys.run_invariant (I := fun s => s.Sound cfg ∧ ∀ c, (s.conns c).Joins) ⟨Sound.init hb hst, hinit⟩
    (fun s a s' hi hs => ⟨hi.1.step hs, Joins.step hi.1.refines hi.2 hs⟩) hrun
  exact hinv.2 c

end Server

/-! ## Epochs -/

/-- The epoch of a consumer that runs. -/
def Consumer.epoch? : Consumer → Option UInt64
  | .polling epoch | .selecting epoch | .delivering epoch _ | .awaiting epoch _ | .parked epoch => some epoch
  | _ => none

namespace Server

variable {cfg : Config} {s s' : Server} {c : Nat} {i : Input} {e : Effect} {f : Conn → Conn}

/-- Every consumer that runs has the epoch of its session. -/
def Current (s : Server) : Prop := ∀ c a epoch, (s.conns c).active = some a →
  (s.conns c).consumer.epoch? = some epoch → (s.state a.session).epoch = epoch

/-- A session gets a new epoch only where a delivery begins. -/
theorem Turn.epoch (hr : s.Refines cfg) (ht : Turn cfg s c i e f) {r : Nat} (hlt : r < s.sessions.allocated) :
    ((e.apply c s).state r).epoch = (s.state r).epoch ∨
      ((s.conns c).pc = .beginning ∧ ∃ a, (s.conns c).active = some a ∧ a.session = r) := by
  by_cases hb : (s.conns c).pc = .beginning ∧ ∃ a, (s.conns c).active = some a ∧ a.session = r
  · exact .inr hb
  · refine .inl ?_
    cases ht.touches hr with
    | @call r' op res hr' hm hop =>
      rw [show ((Effect.call r' op res).apply c s).state r = _ from state_setSession s r' r res]
      split
      · rename_i hrr
        subst hrr
        have hepoch := StateOp.run_epoch hop
        have hop' : op.isBegin = false := by
          cases ht with
          | begin hpc ha => exact (hb ⟨hpc, _, ha, rfl⟩).elim
          | calls _ _ hcall => cases hcall <;> rfl
          | admission => rfl
        rwa [hop', if_neg Bool.false_ne_true] at hepoch
      · rfl
    | turnover hu hto => exact (hto.kept r hlt).epoch
    | nothing hsame => rw [state, hsame]; rfl

theorem ConsumerTurn.epoch (ht : ConsumerTurn s c e f) (r : Nat) :
    ((e.apply c s).state r).epoch = (s.state r).epoch := by
  cases ht with
  | @next epoch a d res _ _ hn =>
    rw [show ((Effect.call a.session (.next epoch) res).apply c s).state r = _ from state_setSession s _ r res]
    split
    · rename_i hrr
      subst hrr
      have hop : (StateOp.next epoch).run s.sessions.limits (s.state a.session) s.sessions.totals = some res := by
        rw [StateOp.run, hn]
        rfl
      exact StateOp.run_epoch hop
    · rfl
  | @wake epoch a state _ _ hst =>
    rw [show ((Effect.call a.session .changed (state, s.sessions.totals)).apply c s).state r = _ from
      state_setSession s _ r _]
    split
    · rename_i hrr
      subst hrr
      rw [State.receiveChanged_eq hst]
    · rfl
  | _ => rfl

end Server

namespace Conn

theorem handshake_consumer (k : Conn) (cfg : Config) (i : Input) : (k.handshake cfg i).consumer = k.consumer := by
  obtain e | ⟨_, -, e⟩ := k.handshake_cases cfg i <;> rw [e]

theorem serve_consumer (k : Conn) (cfg : Config) (i : Input) : (k.serve cfg i).consumer = k.consumer := by
  obtain e | ⟨_, -, e⟩ := k.serve_cases cfg i <;> rw [e]

theorem sendPacket_consumer (k : Conn) (pkt : Packet) (reply : Reply) :
    (k.sendPacket pkt reply).consumer = k.consumer := by
  obtain ⟨_, _, e, -⟩ := k.sendPacket_sends pkt reply
  rw [e]

end Conn

namespace Server

variable {cfg : Config} {s s' : Server} {c : Nat} {i : Input} {e : Effect} {f : Conn → Conn}

/-- The consumer of a connection changes where its delivery begins, and by its own sections. -/
theorem Turn.consumer (ht : Turn cfg s c i e f) (k : Conn) : (f k).consumer = k.consumer ∨
    ((s.conns c).pc = .beginning ∧ ∃ a, (s.conns c).active = some a ∧
      e = .call a.session .beginDelivery ((s.state a.session).beginDelivery.2, s.sessions.totals) ∧
      (f k).consumer = .polling (s.state a.session).beginDelivery.1 ∧ (f k).active = k.active) := by
  cases ht with
  | begin hpc ha => exact .inr ⟨hpc, _, ha, rfl, rfl, rfl⟩
  | handshake => exact .inl (k.handshake_consumer cfg i)
  | serve => exact .inl (k.serve_consumer cfg i)
  | reject | sends => exact .inl (k.sendPacket_consumer _ _)
  | _ => exact .inl rfl

theorem ConsumerTurn.epoch_eq (ht : ConsumerTurn s c e f) {epoch : UInt64}
    (h : (f (s.conns c)).consumer.epoch? = some epoch) : (s.conns c).consumer.epoch? = some epoch := by
  cases ht with
  | poll hc => exact hc ▸ h
  | leave => cases h
  | @next epoch' a d res hc =>
    rw [hc]
    cases d <;> exact h
  | send hc =>
    rw [hc]
    dsimp only at h
    split at h
    · exact h
    · cases h
  | sent hc hcase =>
    rw [hc]
    obtain rfl | rfl := hcase
    · exact h
    · cases h
  | fail => cases h
  | wake hc => exact hc ▸ h

/-- A connection whose consumer runs owns its session. -/
theorem Sound.consumes (h : s.Sound cfg) (hj : (s.conns c).Joins) {epoch : UInt64}
    (he : (s.conns c).consumer.epoch? = some epoch) :
    ∃ a, (s.conns c).active = some a ∧ (s.conns c).owned = some a.session := by
  have hne : (s.conns c).consumer ≠ .absent := fun e => by rw [e] at he; cases he
  obtain ⟨a, ha⟩ := Option.ne_none_iff_exists'.mp ((h.conns c).consumer hne)
  refine ⟨a, ha, (h.refines.conns c).owned (fun hf => ?_) ha⟩
  have hp := hj.place
  rw [hf] at hp
  obtain e | e := hp.1 <;> rw [e] at he <;> cases he

theorem Current.step (hs : s.Sound cfg) (hj : ∀ c, (s.conns c).Joins) (h : s.Current) {a : Action}
    (hstep : s.step cfg a = some s') : s'.Current := by
  intro c b epoch hb he
  have hl := step_later hs.refines hstep
  -- It is enough that the consumer ran before, and that its session keeps the epoch.
  have hkeep : (s.conns c).consumer.epoch? = some epoch →
      (∀ b, (s.conns c).active = some b → (s.conns c).owned = some b.session →
        (s'.state b.session).epoch = (s.state b.session).epoch) → (s'.state b.session).epoch = epoch := by
    intro hce hsame
    obtain ⟨b₀, hb₀, howned⟩ := hs.consumes (hj c) hce
    obtain ⟨b₁, hb₁, hsession, -⟩ := (hl.conns c).owner b₀ hb₀
    cases hb.symm.trans hb₁
    rw [hsession, hsame b₀ hb₀ howned]
    exact h c b₀ epoch hb₀ hce
  cases step_moves hs.refines hstep with
  | accept => exact hkeep he fun _ _ _ => rfl
  | @handler c' i e f hc' ht =>
    have hpeer := e.peer c' s c
    have hepoch : ∀ b, (s.conns c).owned = some b → (s.conns c).consumer.epoch? = some epoch →
        (((e.apply c' s).setConn c' f).state b).epoch = (s.state b).epoch := by
      intro r howned hce
      obtain ⟨b₀, hb₀, howned₀⟩ := hs.consumes (hj c) hce
      cases howned.symm.trans howned₀
      refine (ht.epoch hs.refines ((hs.refines.conns c).session b₀ hb₀)).resolve_right ?_
      rintro ⟨hpc, a', ha', hsession⟩
      -- Who begins a delivery owns the session, and has no consumer yet.
      have howned' := (hs.refines.conns c').owned (by rw [hpc]; simp) ha'
      rw [hsession] at howned'
      obtain rfl : c' = c := hs.refines.reached.inv.session_unique (g := s.registry) howned howned'
      have hp := (hj c').place
      rw [hpc] at hp
      rw [show (s.conns c').consumer = .absent from hp] at hce
      cases hce
    rw [conns_setConn] at he hb
    split at he
    · rename_i hcc
      subst hcc
      rw [if_pos rfl] at hb
      obtain e' | ⟨hpc, a', ha', rfl, hcons, hactive⟩ := ht.consumer ((e.apply c s).conns c)
      · rw [e', hpeer.consumer] at he
        exact hkeep he fun b' hb' howned => hepoch _ howned he
      · rw [hcons] at he
        rw [hactive] at hb
        cases ha'.symm.trans hb
        cases he
        show ((s.setSession _ _).state _).epoch = _
        rw [state_setSession, if_pos rfl]
        rfl
    · rw [hpeer.consumer] at he
      exact hkeep he fun b' hb' howned => hepoch _ howned he
  | @consumer c' i e f hc' ht =>
    have htarget : e.target = none := by cases ht <;> rfl
    rw [conns_setConn, Effect.conns_eq htarget] at he
    split at he
    · rename_i hcc
      subst hcc
      exact hkeep (ht.epoch_eq he) fun b' _ _ => ht.epoch b'.session
    · exact hkeep he fun b' _ _ => ht.epoch b'.session
  | write hc' hw =>
    rw [conns_setConn] at he
    split at he
    · rename_i hcc
      exact hkeep (hcc ▸ he) fun _ _ _ => rfl
    · exact hkeep he fun _ _ _ => rfl
  | writerExit hc' hw =>
    rw [conns_setConn] at he
    split at he
    · rename_i hcc
      exact hkeep (hcc ▸ he) fun _ _ _ => rfl
    · exact hkeep he fun _ _ _ => rfl
  | @sweep now order =>
    exact hkeep he fun b' hb' _ =>
      ((Store.Turnover.expire s.sessions now order).kept _ ((hs.refines.conns c).session b' hb')).epoch

theorem Reachable.current (h : Reachable cfg s) : s.Current := by
  obtain ⟨g, hg⟩ := h.recorded (fun _ _ g => g) ()
  refine hg.invariant (I := fun s _ => s.Current) (fun _ _ _ _ _ _ he => by cases he) ?_
  exact fun s _ a s' hr hi hstep => hi.step hr.reachable.sound hr.reachable.joins hstep

/-- What is said of the connection `c` that owns a session. -/
structure Exclusive (s : Server) (c : Nat) (owner : ActiveConnection) : Prop where
  /-- All other connections that had the session are over, with their consumers and their writers. -/
  others : ∀ c' a, c' ≠ c → (s.conns c').active = some a → a.session = owner.session →
    (s.conns c').pc = .finished ∧ a.done = true ∧ (s.conns c').Quiet ∧ (s.conns c').client.done = true ∧
      (s.conns c').client.writeDone = true
  /-- Its own consumer gets what is due in this epoch. -/
  epoch : ∀ epoch, (s.conns c).consumer.epoch? = some epoch → (s.state owner.session).epoch = epoch
  /-- It is the one that is registered, with the session that is stored. -/
  registered : s.clients[(s.conns c).client.id]? = some c ∧
    s.sessions.data[(s.conns c).client.id]? = some owner.session

/-- **A session is used by one connection at a time**, whatever connections come and take it over. -/
theorem session_exclusive (cfg : Config) (s : Server) (h : Reachable cfg s) (c : Nat) (owner : ActiveConnection)
    (ha : (s.conns c).active = some owner) (hd : owner.done = false) : s.Exclusive c owner := by
  have hs := h.sound
  have howned : (s.conns c).owned = some owner.session := by simp [Conn.owned, ha, hd]
  refine ⟨fun c' a hne ha' hsession => ?_, fun epoch he => h.current c owner epoch ha he, ?_⟩
  · have hdone : a.done = true := by
      by_contra hn
      have howned' : (s.conns c').owned = some owner.session := by simp [Conn.owned, ha', hn, hsession]
      exact hne (hs.refines.reached.inv.session_unique (g := s.registry) howned howned')
    have hpc := (hs.refines.conns c').done a ha' hdone
    have hp := (h.joins c').place
    rw [hpc] at hp
    obtain ⟨hq, hw | ⟨-, hn⟩⟩ := hp
    · exact ⟨hpc, hdone, hq, (h.joins c').stopped hw, hw⟩
    · rw [ha'] at hn
      cases hn
  · obtain ⟨hc, hst, -⟩ := hs.refines.reached.inv.owned (g := s.registry) howned
    exact ⟨hc, hst⟩

/-- Connection 1 takes over from connection 0, which is closed and joined, and gets its session. -/
def takesOver : List Action :=
  connects 0 99 false ++ (connects 1 99 false).take 4 ++ [.handler 1 {}, .handler 0 { fail := true }, .handler 0 {},
    .handler 0 {}, .handler 0 {}, .consumer 0 {}, .handler 0 {}, .writerExit 0, .handler 0 {}, .handler 0 {}, .handler 1 {},
    .handler 1 {}]

theorem session_exclusive_takeover : ∃ s a, Reachable openConfig s ∧ (s.conns 0).active = some a ∧ a.session = 0 ∧
    s.Exclusive 1 { session := 0, cleanSession := false } := by
  have hrun : ((Sys.run (step openConfig) fresh takesOver).map fun s =>
      ((s.conns 0).active.map (·.session), (s.conns 1).active)) =
      some (some 0, some { session := 0, cleanSession := false }) := by decide +kernel
  obtain ⟨s, hs, he⟩ := Option.map_eq_some_iff.mp hrun
  obtain ⟨h0, h1⟩ := Prod.mk.inj he
  obtain ⟨a, ha, hsession⟩ := Option.map_eq_some_iff.mp h0
  exact ⟨s, a, reachable_fresh hs, ha, hsession, session_exclusive openConfig s (reachable_fresh hs) 1 _ h1 rfl⟩

end Server

end OrbMQ
