import OrbMQ.Lib.Fair
import OrbMQ.Server.Delivery

/-!
# Messages arrive

What a session has to deliver gets on its connection, as long as two goroutines go on: the consumer of the connection
and its writer (`Courier`).

* `Conn.courier`: which of the two has to move. `Server.remaining` is what is left to do: the messages up to the one in
  question that were not sent, and how far the consumer is from its next call of `Next`.
* `Server.Attends.enabled`: the one who has to move can. `Server.Attends.lower`: then less is left to do, and nobody
  else makes it more.
* `Server.message_delivered`: so the message gets on the connection, unless the client has to do something first.
-/

namespace OrbMQ

open Go

/-! ## Who has to move -/

/-- The goroutines that bring a message to its connection. -/
inductive Courier where
  | consumer
  | writer
  deriving DecidableEq

/-- Their actions on the connection `c`, as long as no context has ended. -/
def Courier.Acts (c : Nat) : Courier → Action → Prop
  | .consumer, act => ∃ i : Input, i.fail = false ∧ act = .consumer c i
  | .writer, act => (∃ n err, act = .write c n err) ∨ act = .writerExit c

/-- How many writes a `Send` waits for. -/
def Client.ahead (channel : Nat) (c : Client) : Nat :=
  if c.awaitSend channel = none then c.sendQ.findIdx (fun w => w.result == some channel) + 1 else 0

/-- The consumer moves, unless it waits for the writer. -/
def Conn.courier (k : Conn) : Courier :=
  match k.consumer with
  | .awaiting _ channel => if k.client.awaitSend channel = none then .writer else .consumer
  | _ => .consumer

/-- How far the consumer is from its next call of `Next`. -/
def Conn.distance (k : Conn) : ℕ ×ₗ ℕ :=
  match k.consumer with
  | .delivering _ _ => toLex (5, 0)
  | .awaiting _ channel => toLex (4, k.client.ahead channel)
  | .parked _ => toLex (3, 0)
  | .polling _ => toLex (2, 0)
  | .selecting _ => toLex (1, 0)
  | _ => toLex (0, 0)

namespace Client

variable {c c' : Client} {channel j : Nat}

/-- A `Send` that waits has its packet in the queue. -/
theorem Tracks.queued (h : c.Tracks channel j) (hn : c.awaitSend channel = none) :
    c.done = false ∧ ∃ w ∈ c.sendQ, w.result = some channel := by
  rw [awaitSend] at hn
  split at hn
  · cases hn
  · rename_i hnone
    refine ⟨by simpa using hn, ?_⟩
    obtain ⟨front, data, rest, hq, -⟩ | ⟨res, hres, -⟩ := h.result
    · exact ⟨⟨data, some channel⟩, by simp [hq], rfl⟩
    · rw [hnone] at hres
      cases hres

/-- All but the writer leave the order of the queue. -/
theorem Extends.ahead (h : c.Extends c') (ht : c.Tracks channel j) :
    c'.ahead channel < c.ahead channel ∨
      (c'.ahead channel = c.ahead channel ∧ (c'.awaitSend channel = none ↔ c.awaitSend channel = none)) := by
  by_cases hn : c.awaitSend channel = none
  · by_cases hn' : c'.awaitSend channel = none
    · refine .inr ⟨?_, by simp [hn, hn']⟩
      obtain ⟨-, w, hw, hres⟩ := ht.queued hn
      obtain ⟨more, e⟩ := h.queue
      have hlt : c.sendQ.findIdx (fun w => w.result == some channel) < c.sendQ.length :=
        List.findIdx_lt_length.mpr ⟨w, hw, by simp [hres]⟩
      rw [Client.ahead, Client.ahead, if_pos hn, if_pos hn', ← e, List.findIdx_append, if_pos hlt]
    · refine .inl ?_
      rw [Client.ahead, Client.ahead, if_pos hn, if_neg hn']
      omega
  · have hn' : c'.awaitSend channel ≠ none := by
      rw [awaitSend, h.results]
      rw [awaitSend] at hn
      split
      · simp
      · rename_i hres
        rw [hres] at hn
        have hd := h.done (by simpa using hn)
        simp [hd]
    refine .inr ⟨?_, by simp [hn, hn']⟩
    rw [Client.ahead, Client.ahead, if_neg hn, if_neg hn']

/-- A write takes the first packet of the queue, and answers its `Send`. -/
theorem writeNext_pops {n : Nat} {err : Option Err} (hw : c.writeNext n err = some c') : ∃ write rest,
    c.sendQ = write :: rest ∧ c'.sendQ = rest ∧ (c.done = true → c'.done = true) ∧
      ∀ ch, write.result = some ch ∨ c.results ch ≠ none → c'.results ch ≠ none := by
  have hresults : ∀ (write : QueuedWrite) (res : Except Err Unit) (ch : Nat), write.result = some ch ∨ c.results ch ≠ none →
      (write.result.elim c.results fun ch => Function.update c.results ch (some res)) ch ≠ none := by
    intro write res ch hch
    cases hr : write.result with
    | none => exact hch.resolve_left (by simp [hr])
    | some ch' =>
      rw [Option.elim_some, Function.update_apply]
      split
      · simp
      · rename_i hne
        exact hch.resolve_left fun e => hne (Option.some.inj (e.symm.trans hr))
  unfold writeNext at hw
  repeat' split at hw
  all_goals cases hw
  · rename_i write rest hq _
    exact ⟨write, rest, hq, rfl, fun _ => rfl, hresults write _⟩
  · rename_i write rest hq _
    exact ⟨write, rest, hq, rfl, fun hd => hd, hresults write _⟩

/-- Every write brings a `Send` closer to its result. -/
theorem ahead_writeNext (hn : c.awaitSend channel = none) {n : Nat} {err : Option Err}
    (hw : c.writeNext n err = some c') : c'.ahead channel < c.ahead channel := by
  obtain ⟨write, rest, hq, hq', -, hres⟩ := writeNext_pops hw
  rw [Client.ahead, Client.ahead, if_pos hn]
  split
  · rename_i hn'
    -- Otherwise the result is there.
    have hhead : (write.result == some channel) = false := by
      refine beq_eq_false_iff_ne.mpr fun he => ?_
      obtain ⟨res, hch⟩ := Option.ne_none_iff_exists'.mp (hres channel (.inl he))
      rw [awaitSend, hch] at hn'
      cases hn'
    rw [hq, hq', List.findIdx_cons, hhead]
    simp
  · omega

/-- A `Send` that has its result keeps it. -/
theorem awaitSend_ne_none (h : c.awaitSend channel ≠ none) (hd : c.done = true → c'.done = true)
    (hres : c.results channel ≠ none → c'.results channel ≠ none) : c'.awaitSend channel ≠ none := by
  rw [awaitSend] at h ⊢
  split
  · simp
  · rename_i hnone
    split at h
    · rename_i hsome
      exact (hres (by simp [hsome]) hnone).elim
    · simp [hd (by simpa using h)]

end Client

namespace Conn

variable {k k' : Conn}

theorem distance_extends (hj : k.Joins) (hk : k'.consumer = k.consumer) (he : k.client.Extends k'.client) :
    k'.distance < k.distance ∨ (k'.distance = k.distance ∧ k'.courier = k.courier) := by
  unfold distance courier
  rw [hk]
  cases hc : k.consumer with
  | awaiting epoch channel =>
    obtain ⟨j, ht⟩ := hj.sends epoch channel hc
    obtain hlt | ⟨heq, hiff⟩ := he.ahead ht
    · exact .inl (Prod.Lex.toLex_lt_toLex.mpr (.inr ⟨rfl, hlt⟩))
    · exact .inr ⟨congrArg (fun n => toLex (4, n)) heq, by simp only [hiff]⟩
  | _ => exact .inr ⟨rfl, rfl⟩

theorem distance_write {client : Client} {n : Nat} {err : Option Err} (hw : k.client.writeNext n err = some client) :
    ({ k with client } : Conn).distance < k.distance ∨
      (({ k with client } : Conn).distance = k.distance ∧ k.courier = .consumer ∧
        ({ k with client } : Conn).courier = .consumer) := by
  unfold distance courier
  dsimp only
  cases hc : k.consumer with
  | awaiting epoch channel =>
    by_cases hn : k.client.awaitSend channel = none
    · exact .inl (Prod.Lex.toLex_lt_toLex.mpr (.inr ⟨rfl, Client.ahead_writeNext hn hw⟩))
    · obtain ⟨write, rest, -, -, hd, hres⟩ := Client.writeNext_pops hw
      have hn' := Client.awaitSend_ne_none hn hd fun h => hres channel (.inr h)
      have heq : client.ahead channel = k.client.ahead channel := by
        rw [Client.ahead, Client.ahead, if_neg hn, if_neg hn']
      exact .inr ⟨congrArg (fun n => toLex (4, n)) heq, if_neg hn, if_neg hn'⟩
  | _ => exact .inr ⟨rfl, rfl, rfl⟩

end Conn

namespace Server

variable {cfg : Config} {s s' : Server} {g : Nat → Dispatch} {c r p : Nat} {i : Input} {epoch : UInt64}

/-- The consumer of `c` was started in `epoch`, for the session `r`. -/
structure Attends (cfg : Config) (c r : Nat) (epoch : UInt64) (s : Server) (g : Nat → Dispatch) : Prop where
  recorded : Recorded cfg Dispatch.note (fun _ => {}) s g
  conn : c < s.accepted
  session : ∃ a, (s.conns c).active = some a ∧ a.session = r
  runs : (s.conns c).consumer.epoch? = some epoch ∨ (s.conns c).consumer = .failing ∨
    (s.conns c).consumer = .returned

theorem Attends.reachable (h : s.Attends cfg c r epoch g) : Reachable cfg s := h.recorded.reachable

/-- There is nothing left that could be done for the message `p`. -/
inductive Rests (s : Server) (g : Dispatch) (c r p : Nat) (epoch : UInt64) : Prop
  | written : (s.conns c).OnWire g p ((s.state r).heap p) → Rests s g c r p epoch
  | gone : p ∉ (s.state r).entries → Rests s g c r p epoch
  | ended : (s.conns c).consumer = .failing ∨ (s.conns c).consumer = .returned → Rests s g c r p epoch
  | blocked : (s.conns c).consumer = .parked epoch → (s.state r).paused = true ∨
      s.sessions.limits.maxInflightMessagesPerSession ≤ (s.state r).activeInflight → Rests s g c r p epoch

/-- What is left to do. -/
def remaining (c r p : Nat) (epoch : UInt64) (s : Server) : ℕ ×ₗ ℕ ×ₗ ℕ :=
  toLex ((s.state r).unsent epoch p, (s.conns c).distance)

/-- What is known as long as something can be done. -/
structure Pending (s : Server) (g : Dispatch) (c p : Nat) (epoch : UInt64) (a : ActiveConnection) : Prop where
  active : (s.conns c).active = some a
  runs : (s.conns c).consumer.epoch? = some epoch
  serves : s.Serves g c a epoch
  known : a.session < s.sessions.allocated
  live : (s.state a.session).deleted = false
  current : (s.state a.session).epoch = epoch
  mem : p ∈ (s.state a.session).entries
  /-- A consumer with empty hands has not sent the message yet. -/
  unsent : (∀ epoch d, (s.conns c).consumer ≠ .delivering epoch d) →
    (∀ epoch channel, (s.conns c).consumer ≠ .awaiting epoch channel) →
    ((s.state a.session).heap p).lastEpoch ≠ epoch

theorem Attends.pending (h : s.Attends cfg c r epoch g) (hw : s.accepted < 2 ^ 64) (hn : ¬ s.Rests (g c) c r p epoch) :
    ∃ a, a.session = r ∧ s.Pending (g c) c p epoch a := by
  obtain ⟨a, ha, rfl⟩ := h.session
  have hruns := h.runs.resolve_right fun hover => hn (.ended hover)
  obtain ⟨a', ha', howned⟩ := h.reachable.sound.consumes (h.reachable.joins c) hruns
  cases ha.symm.trans ha'
  obtain ⟨hlt, hlive⟩ := h.reachable.sound.owned_live howned
  have hserves := h.recorded.serves hw ha hruns
  have hmem : p ∈ (s.state a.session).entries := not_not.mp fun hmem => hn (.gone hmem)
  refine ⟨a, rfl, ha, hruns, hserves, hlt, hlive, h.reachable.current c a epoch ha hruns, hmem, fun hd hk hlast => ?_⟩
  obtain ⟨w, hwin⟩ := h.reachable.window hw hlt hlive
  have hid : ((s.state a.session).heap p).packetID ≠ 0 := fun hzero =>
    hserves.begun (hlast.symm.trans (hwin.lastEpoch_eq_zero hmem hzero))
  exact hn (.written ((hserves.carries p hmem hlast hid).onWire hd hk))

/-- Nothing is deliverable although a message waits: the window is full, or the delivery is paused. -/
theorem Pending.blocked {a : ActiveConnection} (h : s.Pending (g c) c p epoch a)
    (hunsent : ((s.state a.session).heap p).lastEpoch ≠ epoch)
    (hd : ¬ (s.state a.session).Deliverable s.sessions.limits epoch) : (s.state a.session).paused = true ∨
      s.sessions.limits.maxInflightMessagesPerSession ≤ (s.state a.session).activeInflight := by
  by_contra hnot
  obtain ⟨hpaused, hfull⟩ := not_or.mp hnot
  exact hd ⟨h.live, Bool.eq_false_of_not_eq_true hpaused, h.current.symm, not_le.mp hfull,
    State.select_of_unsent h.mem hunsent⟩

/-- The one who has to move can do so. -/
theorem Attends.enabled (h : s.Attends cfg c r epoch g) (hw : s.accepted < 2 ^ 64) (hn : ¬ s.Rests (g c) c r p epoch) :
    ∃ act s', (s.conns c).courier.Acts c act ∧ s.step cfg act = some s' := by
  obtain ⟨a, rfl, hp⟩ := h.pending hw hn
  have hruns := hp.runs
  -- The consumer can take its next section.
  have hmove : (s.conns c).courier = .consumer → (s.consumerStep c {}).isSome = true →
      ∃ act s', (s.conns c).courier.Acts c act ∧ s.step cfg act = some s' := by
    intro hc hs
    obtain ⟨s', hs'⟩ := Option.isSome_iff_exists.mp hs
    refine ⟨.consumer c {}, s', ?_, by rw [step, if_pos h.conn, hs']⟩
    rw [hc]
    exact ⟨{}, rfl, rfl⟩
  cases hk : (s.conns c).consumer with
  | absent | failing | returned =>
    rw [hk] at hruns
    cases hruns
  | polling | delivering => exact hmove (by simp [Conn.courier, hk]) (by simp [consumerStep, hk])
  | selecting epoch' =>
    refine hmove (by simp [Conn.courier, hk]) ?_
    obtain ⟨res, hnext⟩ := h.reachable.next_returns hw hp.known epoch'
    simp only [consumerStep, hk, hp.active, hnext, Option.bind_eq_bind, Option.bind_some]
    rfl
  | parked epoch' =>
    refine hmove (by simp [Conn.courier, hk]) ?_
    rw [hk] at hruns
    cases hruns
    have hunsent := hp.unsent (by simp [hk]) (by simp [hk])
    obtain hc | hd := hp.serves.signals hk
    · simp only [consumerStep, hk, hp.active, State.receiveChanged, hc, if_true, Option.bind_eq_bind, Option.bind_some]
      split <;> rfl
    · exact (hn (.blocked hk (hp.blocked hunsent hd))).elim
  | awaiting epoch' channel =>
    by_cases hnone : (s.conns c).client.awaitSend channel = none
    · obtain ⟨j, ht⟩ := (h.reachable.joins c).sends epoch' channel hk
      obtain ⟨hdone, w, hmem, -⟩ := ht.queued hnone
      have hopen : (s.conns c).client.writeDone = false := by
        refine Bool.eq_false_of_not_eq_true fun hwd => ?_
        rw [(h.reachable.joins c).stopped hwd] at hdone
        cases hdone
      have hsome : ((s.conns c).client.writeNext 0 none).isSome = true := by
        obtain ⟨write, rest, hq⟩ := List.exists_cons_of_ne_nil (List.ne_nil_of_mem hmem)
        rw [Client.writeNext, hopen, hq]
        rfl
      obtain ⟨client, hclient⟩ := Option.isSome_iff_exists.mp hsome
      refine ⟨.write c 0 none, _, ?_, by rw [step, if_pos h.conn, hclient]; rfl⟩
      simp only [Conn.courier, hk, hnone, if_true]
      exact .inl ⟨0, none, rfl⟩
    · obtain ⟨res, hres⟩ := Option.ne_none_iff_exists'.mp hnone
      exact hmove (by simp [Conn.courier, hk, hres]) (by simp [consumerStep, hk, hres])

/-- The others take nothing back. -/
theorem Attends.others (h : s.Attends cfg c r epoch g) (hw : s.accepted < 2 ^ 64) (hn : ¬ s.Rests (g c) c r p epoch)
    {act : Action} (hs : s.step cfg act = some s') (hcons : ∀ i, act ≠ .consumer c i) :
    s'.remaining c r p epoch < s.remaining c r p epoch ∨
      (s'.remaining c r p epoch = s.remaining c r p epoch ∧ (s'.conns c).courier = (s.conns c).courier ∧
        ¬ (s.conns c).courier.Acts c act) := by
  obtain ⟨a, rfl, hp⟩ := h.pending hw hn
  have hj := h.reachable.joins c
  have hne : (s.conns c).consumer ≠ .absent := fun e => by
    have hruns := hp.runs
    rw [e] at hruns
    cases hruns
  have hptr := (h.reachable.refines.store.accounts a.session).pointers
  obtain ⟨ops, hrun, hleaves⟩ := h.reachable.step_leaves hs hp.active hp.runs hcons
  have hle : (s'.state a.session).unsent epoch p ≤ (s.state a.session).unsent epoch p :=
    (Store.passes hp.known hleaves hrun).1.unsent_le hptr.bound (hptr.bound p hp.mem) epoch
  -- It is enough to look at the connection.
  have hconn : (s'.conns c).distance < (s.conns c).distance ∨
      ((s'.conns c).distance = (s.conns c).distance ∧ (s'.conns c).courier = (s.conns c).courier ∧
        ¬ (s.conns c).courier.Acts c act) := by
    by_cases hwrite : ∃ n err, act = .write c n err
    · obtain ⟨n, err, rfl⟩ := hwrite
      have hm := step_conn h.reachable.refines hs c
      generalize s'.conns c = k at hm
      cases hm with
      | write hw =>
        obtain hlt | ⟨heq, hc, hc'⟩ := Conn.distance_write hw
        · exact .inl hlt
        · refine .inr ⟨heq, hc'.trans hc.symm, ?_⟩
          rw [hc]
          rintro ⟨i, -, e⟩
          cases e
      | same hne => exact (hne rfl).elim
    · obtain ⟨hext, hsame⟩ := step_extends h.reachable.refines hj hne hs hcons fun n err e => hwrite ⟨n, err, e⟩
      obtain hlt | ⟨heq, hc⟩ := Conn.distance_extends hj hsame hext
      · exact .inl hlt
      · refine .inr ⟨heq, hc, fun hacts => ?_⟩
        cases hcour : (s.conns c).courier with
        | consumer =>
          rw [hcour] at hacts
          obtain ⟨i, -, rfl⟩ := hacts
          exact hcons i rfl
        | writer =>
          rw [hcour] at hacts
          obtain ⟨n, err, rfl⟩ | rfl := hacts
          · exact hwrite ⟨n, err, rfl⟩
          · -- The writer exits after the connection was closed, and then `Send` does not wait for it.
            have hexit := (Option.ite_none_right_eq_some.mp hs).2
            obtain ⟨client, hclient, -⟩ := Option.map_eq_some_iff.mp hexit
            have hdone := (Option.ite_none_right_eq_some.mp hclient).1.1
            unfold Conn.courier at hcour
            split at hcour
            · rename_i epoch' channel hk
              split at hcour
              · rename_i hnone
                obtain ⟨j, ht⟩ := hj.sends epoch' channel hk
                rw [(ht.queued hnone).1] at hdone
                cases hdone
              · cases hcour
            · cases hcour
  unfold remaining
  obtain hlt | heq := hle.lt_or_eq
  · exact .inl (Prod.Lex.toLex_lt_toLex.mpr (.inl hlt))
  · obtain hlt | ⟨hd, hc, hacts⟩ := hconn
    · exact .inl (Prod.Lex.toLex_lt_toLex.mpr (.inr ⟨heq, hlt⟩))
    · exact .inr ⟨by rw [heq, hd], hc, hacts⟩

/-- A section of the consumer brings the message closer, or comes to an end. -/
theorem Attends.own (h : s.Attends cfg c r epoch g) (hw : s.accepted < 2 ^ 64) (hn : ¬ s.Rests (g c) c r p epoch)
    (hs : s.step cfg (.consumer c i) = some s') :
    s'.Rests (Dispatch.note s (.consumer c i) g c) c r p epoch ∨
      s'.remaining c r p epoch < s.remaining c r p epoch := by
  obtain ⟨a, rfl, hp⟩ := h.pending hw hn
  cases step_moves h.reachable.refines hs with
  | @consumer _ _ e f _ ht =>
    have htarget : e.target = none := by cases ht <;> rfl
    have hconn : (((e.apply c s).setConn c f).conns c) = f (s.conns c) := by
      rw [conns_setConn, if_pos rfl, Effect.conns_eq htarget]
    -- The session is as it was, and the consumer goes on.
    have hnear : ((e.apply c s).state a.session).unsent epoch p = (s.state a.session).unsent epoch p →
        (f (s.conns c)).distance < (s.conns c).distance →
        ((e.apply c s).setConn c f).remaining c a.session p epoch < s.remaining c a.session p epoch := by
      intro hsame hlt
      refine Prod.Lex.toLex_lt_toLex.mpr (.inr ⟨hsame, ?_⟩)
      rw [hconn]
      exact hlt
    have hover : (f (s.conns c)).consumer = .failing ∨ (f (s.conns c)).consumer = .returned →
        ((e.apply c s).setConn c f).Rests (Dispatch.note s (.consumer c i) g c) c a.session p epoch :=
      fun ho => .ended (by rwa [hconn])
    cases ht with
    | poll hk =>
      exact .inr (hnear rfl (by simp [Conn.distance, hk, Prod.Lex.toLex_lt_toLex]))
    | leave => exact .inl (hover (.inr rfl))
    | @next epoch' a' d res hk ha' hnext =>
      cases hp.active.symm.trans ha'
      have hruns := hp.runs
      rw [hk] at hruns
      cases hruns
      have hunsent := hp.unsent (by simp [hk]) (by simp [hk])
      obtain ⟨st, totals⟩ := res
      have hstate : ((Effect.call a.session (.next epoch) (st, totals)).apply c s).state a.session = st :=
        (state_setSession s _ _ _).trans (if_pos rfl)
      cases d with
      | some d =>
        refine .inr (Prod.Lex.toLex_lt_toLex.mpr (.inl ?_))
        show (((Effect.call a.session (.next epoch) (st, totals)).apply c s).state a.session).unsent epoch p < _
        rw [hstate]
        exact State.next_unsent (h.reachable.refines.store.accounts a.session).pointers.sorted hnext hp.mem hunsent
      | none =>
        obtain ⟨-, rfl, -⟩ | ⟨-, q, -, ⟨-, hd, -⟩ | ⟨-, id, -, hd, -⟩⟩ := State.next_cases hnext
        · refine .inl (.blocked (by rw [hconn]) ?_)
          show (((Effect.call a.session (.next epoch) _).apply c s).state a.session).paused = true ∨
            s.sessions.limits.maxInflightMessagesPerSession ≤
              (((Effect.call a.session (.next epoch) _).apply c s).state a.session).activeInflight
          rw [hstate]
          exact hp.blocked hunsent (State.not_deliverable_of_next hnext)
        · cases hd
        · cases hd
    | @send epoch' d hk =>
      cases hres : ((s.conns c).client.send d.data).1 with
      | ok channel => exact .inr (hnear rfl (by simp [Conn.distance, hk, hres, Prod.Lex.toLex_lt_toLex]))
      | error e => exact .inl (hover (.inl (by simp only [hres])))
    | sent hk hcase =>
      obtain rfl | rfl := hcase
      · exact .inr (hnear rfl (by simp [Conn.distance, hk, Prod.Lex.toLex_lt_toLex]))
      · exact .inl (hover (.inl rfl))
    | fail => exact .inl (hover (.inr rfl))
    | @wake epoch' a' state hk ha' hst =>
      cases hp.active.symm.trans ha'
      refine .inr (hnear ?_ (by simp [Conn.distance, hk, Prod.Lex.toLex_lt_toLex]))
      rw [show ((Effect.call a.session .changed (state, s.sessions.totals)).apply c s).state a.session = state from
        (state_setSession s _ _ _).trans (if_pos rfl), State.receiveChanged_eq hst]
      rfl

theorem Attends.lower (h : s.Attends cfg c r epoch g) (hw : s.accepted < 2 ^ 64) (hn : ¬ s.Rests (g c) c r p epoch)
    {act : Action} (hs : s.step cfg act = some s') : s'.Rests (Dispatch.note s act g c) c r p epoch ∨
      s'.remaining c r p epoch < s.remaining c r p epoch ∨ (s'.remaining c r p epoch = s.remaining c r p epoch ∧
        (s'.conns c).courier = (s.conns c).courier ∧ ¬ (s.conns c).courier.Acts c act) := by
  by_cases hown : ∃ i, act = .consumer c i
  · obtain ⟨i, rfl⟩ := hown
    exact (h.own hw hn hs).imp_right .inl
  · exact .inr (h.others hw hn hs fun i e => hown ⟨i, e⟩)

/-- A consumer stays in its epoch, or it is over. -/
theorem ConsumerTurn.ends {e : Effect} {f : Conn → Conn} (ht : ConsumerTurn s c e f) :
    (f (s.conns c)).consumer.epoch? = (s.conns c).consumer.epoch? ∨ (f (s.conns c)).consumer = .failing ∨
      (f (s.conns c)).consumer = .returned := by
  cases ht with
  | poll hk | wake hk => exact .inl (by rw [hk]; rfl)
  | leave | fail => exact .inr (.inr rfl)
  | @next _ _ d _ hk => cases d <;> exact .inl (by rw [hk]; rfl)
  | @send _ d hk =>
    cases hres : ((s.conns c).client.send d.data).1 with
    | ok channel => exact .inl (by simp only [hk, hres]; rfl)
    | error e => exact .inr (.inl (by simp only [hres]))
  | sent hk hcase =>
    obtain rfl | rfl := hcase
    · exact .inl (by rw [hk]; rfl)
    · exact .inr (.inl rfl)

theorem Attends.step (h : s.Attends cfg c r epoch g) {act : Action} (hs : s.step cfg act = some s') :
    s'.Attends cfg c r epoch (Dispatch.note s act g) := by
  have hr := h.reachable.refines
  have hl := step_later hr hs
  obtain ⟨a, ha, hsession⟩ := h.session
  obtain ⟨a', ha', hsession', -⟩ := (hl.conns c).owner a ha
  refine ⟨h.recorded.after hs, h.conn.trans_le hl.accepted, ⟨a', ha', hsession'.trans hsession⟩, ?_⟩
  by_cases hown : ∃ i, act = .consumer c i
  · obtain ⟨i, rfl⟩ := hown
    have hruns := h.runs
    have hm := step_conn hr hs c
    generalize s'.conns c = k at hm
    cases hm with
    | consumer ht =>
      obtain heq | hover := ht.ends
      · obtain hepoch | hk | hk := hruns
        · exact .inl (heq.trans hepoch)
        · cases ht <;> simp_all
        · cases ht <;> simp_all
      · exact .inr hover
    | same hne => exact (hne rfl).elim
  · have hne : (s.conns c).consumer ≠ .absent := fun e => by
      have hruns := h.runs
      rw [e] at hruns
      simp [Consumer.epoch?] at hruns
    rw [(step_runs hr (h.reachable.joins c) hne hs fun i e => hown ⟨i, e⟩).2]
    exact h.runs

/-- What becomes of the message `p` of the session `r`, while the consumer of `c` runs in `epoch` and has sent `g`. -/
inductive Delivered (s : Server) (g : Dispatch) (c r p : Nat) (epoch : UInt64) : Prop
  /-- It is on the connection, with all packets before it. -/
  | written : (s.conns c).OnWire g p ((s.state r).heap p) → Delivered s g c r p epoch
  | acknowledged {c' : Nat} {pkt : PubAckPacket} : s.Acknowledges c' r p pkt → Delivered s g c r p epoch
  /-- The connection comes to its end. -/
  | ended : (s.conns c).consumer = .failing ∨ (s.conns c).consumer = .returned → Delivered s g c r p epoch
  /-- The consumer waits for the end of a SUBSCRIBE. -/
  | paused : (s.conns c).consumer = .parked epoch → (s.state r).paused = true → Delivered s g c r p epoch
  /-- The consumer waits for the client, which has as many messages to acknowledge as the window allows. -/
  | full {sent : List Nat} : (s.conns c).consumer = .parked epoch → sent.Sublist (s.state r).entries →
      (sent.length : Int) = s.sessions.limits.maxInflightMessagesPerSession →
      (∀ q ∈ sent, (s.conns c).OnWire g q ((s.state r).heap q)) → Delivered s g c r p epoch

/-- All messages of a full window are on the connection, once the consumer waits. -/
theorem Attends.full (h : s.Attends cfg c r epoch g) (hw : s.accepted < 2 ^ 64)
    (hk : (s.conns c).consumer = .parked epoch)
    (hfull : s.sessions.limits.maxInflightMessagesPerSession ≤ (s.state r).activeInflight) :
    s.Delivered (g c) c r p epoch := by
  obtain ⟨a, ha, rfl⟩ := h.session
  have hruns : (s.conns c).consumer.epoch? = some epoch := by rw [hk]; rfl
  obtain ⟨a', ha', howned⟩ := h.reachable.sound.consumes (h.reachable.joins c) hruns
  cases ha.symm.trans ha'
  obtain ⟨hlt, hlive⟩ := h.reachable.sound.owned_live howned
  obtain ⟨w, hwin⟩ := h.reachable.window hw hlt hlive
  have hlaws := hwin.windowLaws h.reachable.refines.store.valid
  have hcurrent := h.reachable.current c a epoch ha hruns
  refine @Delivered.full s (g c) c a.session p epoch ((s.state a.session).entries.filter fun q =>
    ((s.state a.session).heap q).packetID ≠ 0 ∧ ((s.state a.session).heap q).lastEpoch = (s.state a.session).epoch)
    hk List.filter_sublist ?_ fun q hq => ?_
  · rw [← List.countP_eq_length_filter, ← hlaws.active]
    have hbounds := hlaws.bounds
    have hsize := hlaws.size
    omega
  · obtain ⟨hmem, hsent⟩ := List.mem_filter.mp hq
    obtain ⟨hid, hlast⟩ := of_decide_eq_true hsent
    have hcarries := (h.recorded.serves hw ha hruns).carries q hmem (hlast.trans hcurrent) hid
    exact hcarries.onWire (by simp [hk]) (by simp [hk])

/-- **At least once, the second half.** In every run in which the consumer and the writer of a connection are not
passed over forever, each message in the queue of its session gets on the connection, whatever all others do, unless
the client has acknowledged it, the connection ends, or the consumer has to wait for the client. That is for a server
that accepts fewer than `2 ^ 64` connections in all, so that no epoch wraps. -/
theorem message_delivered (cfg : Config) (x : Nat → Server) (acts : Nat → Option Action) (g : Nat → Dispatch)
    (c r p : Nat) (epoch : UInt64) (h : Recorded cfg Dispatch.note (fun _ => {}) (x 0) g)
    (htrace : Sys.Trace (step cfg) x acts) (hfair : ∀ t : Courier, Sys.Fair (step cfg) (t.Acts c) x acts)
    (hw : ∀ n, (x n).accepted < 2 ^ 64) (hsession : ∃ a, ((x 0).conns c).active = some a ∧ a.session = r)
    (hruns : ((x 0).conns c).consumer.epoch? = some epoch) (hp : p ∈ ((x 0).state r).entries) :
    ∃ n, (x n).Delivered (Sys.history Dispatch.note x acts g n c) c r p epoch := by
  have hconn : c < (x 0).accepted := by
    refine h.reachable.sound.accepted c fun hpc => ?_
    obtain ⟨a, ha, -⟩ := hsession
    rw [((h.reachable.joins c).unread hpc).2] at ha
    cases ha
  have hrecord := htrace.record Dispatch.note g
  have hattends : ∀ n, (x n).Attends cfg c r epoch (Sys.history Dispatch.note x acts g n) := by
    refine hrecord.invariant (I := fun y => y.1.Attends cfg c r epoch y.2) ⟨h, hconn, hsession, .inl hruns⟩ ?_
    rintro ⟨s, g⟩ a ⟨s', g'⟩ hi hs
    obtain ⟨hstep, rfl⟩ := Sys.record_eq_some.mp hs
    exact hi.step hstep
  have hrests : ∃ n, (x n).Rests (Sys.history Dispatch.note x acts g n c) c r p epoch := by
    refine (hrecord.eventually (I := fun y => y.1.Attends cfg c r epoch y.2 ∧ y.1.accepted < 2 ^ 64)
      (P := fun y => y.1.Rests (y.2 c) c r p epoch) (fun y => y.1.remaining c r p epoch) (fun y => (y.1.conns c).courier)
      (fun t => (hfair t).record Dispatch.note g) (fun n => ⟨hattends n, hw n⟩) ?_ ?_ 0).imp fun _ hn => hn.2
    · rintro ⟨s, g⟩ ⟨hi, hw⟩ hn
      obtain ⟨a, s', hact, hs⟩ := hi.enabled hw hn
      exact ⟨a, _, hact, Sys.record_eq_some.mpr ⟨hs, rfl⟩⟩
    · rintro ⟨s, g⟩ a ⟨s', g'⟩ ⟨hi, hw⟩ - hn hs
      obtain ⟨hstep, rfl⟩ := Sys.record_eq_some.mp hs
      exact hi.lower hw hn hstep
  -- The first such state tells how the message got out of the queue, if it did.
  classical
  have hfirst := Nat.find_spec hrests
  have hbefore := fun k => Nat.find_min (m := k) hrests
  generalize Nat.find hrests = n at hfirst hbefore
  cases hfirst with
  | written hwire => exact ⟨n, .written hwire⟩
  | ended ho => exact ⟨n, .ended ho⟩
  | blocked hk hb =>
    obtain hpaused | hfull := hb
    · exact ⟨n, .paused hk hpaused⟩
    · exact ⟨n, (hattends n).full (hw n) hk hfull⟩
  | gone hgone =>
    cases n with
    | zero => exact (hgone hp).elim
    | succ k =>
      have hnot := hbefore k (Nat.lt_succ_self k)
      obtain ⟨a, rfl, hpend⟩ := (hattends k).pending (hw k) hnot
      cases hact : acts k with
      | none =>
        rw [htrace.rests k hact] at hgone
        exact (hgone hpend.mem).elim
      | some act =>
        obtain hmem | hdel | ⟨c', i, pkt, -, hack⟩ :=
          step_kept (hattends k).reachable.refines (htrace.takes k act hact) hpend.known hpend.mem
        · exact (hgone hmem).elim
        · obtain hrun | hover := (hattends (k + 1)).runs
          · obtain ⟨a', ha', howned⟩ := (hattends (k + 1)).reachable.sound.consumes
              ((hattends (k + 1)).reachable.joins c) hrun
            obtain ⟨b, hb, hsame⟩ := (hattends (k + 1)).session
            cases hb.symm.trans ha'
            rw [hsame] at howned
            rw [((hattends (k + 1)).reachable.sound.owned_live howned).2] at hdel
            cases hdel
          · exact ⟨k + 1, .ended hover⟩
        · exact ⟨k, .acknowledged hack⟩

/-- A consumer that waits and a writer with an empty queue do nothing. -/
theorem couriers_wait {a : ActiveConnection} (hk : (s.conns c).consumer = .parked epoch)
    (ha : (s.conns c).active = some a) (hc : (s.state a.session).changed = false)
    (hd : (s.conns c).client.done = false) (hq : (s.conns c).client.sendQ = []) (t : Courier) (act : Action)
    (hact : t.Acts c act) : s.step cfg act = none := by
  cases t with
  | consumer =>
    obtain ⟨i, hi, rfl⟩ := hact
    simp [Server.step, consumerStep, hk, hi, hd, ha, State.receiveChanged, hc]
  | writer =>
    obtain ⟨n, err, rfl⟩ | rfl := hact
    · simp [Server.step, Client.writeNext, hq]
    · simp [Server.step, Client.writerExit, hd]

theorem message_delivered_echo : ∃ s s' g, Recorded openConfig Dispatch.note (fun _ => {}) s g ∧
    Sys.run (step openConfig) s echoDelivered = some s' ∧ (s.state 0).entries = [0] ∧
    ∃ n, (Sys.states (step openConfig) s echoDelivered n).Delivered (Sys.history Dispatch.note
      (Sys.states (step openConfig) s echoDelivered) (fun n => echoDelivered[n]?) g n 0) 0 0 0 1 := by
  have hrun : ((Sys.run (step openConfig) fresh echoQueued).bind fun s =>
      (Sys.run (step openConfig) s echoDelivered).map fun s' =>
        ((s.state 0).entries, (s.conns 0).consumer.epoch?, (s.conns 0).active.map (·.session),
          (List.range 10).all fun n => (Sys.states (step openConfig) s echoDelivered n).accepted == 1)) =
      some ([0], some 1, some 0, true) := by decide +kernel
  have hend : ((Sys.run (step openConfig) fresh (echoQueued ++ echoDelivered)).map fun s' =>
      ((ofLex (s'.conns 0).distance).1, (s'.conns 0).active.map (·.session), (s'.state 0).changed, s'.accepted)) =
      some (3, some 0, false, 1) := by decide +kernel
  have hidle : ((Sys.run (step openConfig) fresh (echoQueued ++ echoDelivered)).map fun s' =>
      ((s'.conns 0).client.done, (s'.conns 0).client.sendQ)) = some (false, []) := by decide +kernel
  obtain ⟨s, hs, he⟩ := Option.bind_eq_some_iff.mp hrun
  obtain ⟨s', hs', he⟩ := Option.map_eq_some_iff.mp he
  simp only [Prod.mk.injEq] at he
  obtain ⟨hentries, hepoch, hactive, haccepted⟩ := he
  rw [Sys.run_trans hs hs', Option.map_some, Option.some.injEq] at hend hidle
  simp only [Prod.mk.injEq] at hend hidle
  obtain ⟨hdist, hactive', hchanged, haccepted'⟩ := hend
  obtain ⟨hdone, hqueue⟩ := hidle
  obtain ⟨a, ha, hsession⟩ := Option.map_eq_some_iff.mp hactive
  obtain ⟨a', ha', hsession'⟩ := Option.map_eq_some_iff.mp hactive'
  obtain ⟨epoch, hk⟩ : ∃ epoch, (s'.conns 0).consumer = .parked epoch := by
    cases hk : (s'.conns 0).consumer <;> simp_all [Conn.distance]
  obtain ⟨g, hrecorded⟩ : ∃ g, Recorded openConfig Dispatch.note (fun _ => {}) s g := (reachable_fresh hs).recorded _ _
  refine ⟨s, s', g, hrecorded, hs', hentries, message_delivered openConfig (Sys.states (step openConfig) s echoDelivered)
    (fun n => echoDelivered[n]?) g 0 0 0 1 hrecorded (Sys.trace_of_run hs') (fun t => Sys.fair_of_run hs' ?_)
    (fun n => ?_) ⟨a, ha, hsession⟩ hepoch ?_⟩
  · exact couriers_wait hk ha' (hsession' ▸ hchanged) hdone hqueue t
  · by_cases hn : n < 10
    · have hone := List.all_eq_true.mp haccepted n (List.mem_range.mpr hn)
      rw [beq_iff_eq.mp hone]
      decide
    · rw [Sys.states_of_le hs' (by simpa [echoDelivered] using hn), haccepted']
      decide
  · show 0 ∈ (s.state 0).entries
    simp [hentries]

end Server

end OrbMQ
