import OrbMQ.Server.Isolation

/-!
# Connections without a client ID

A CONNECT may leave its client ID empty if it asks for a clean session. The protocol wants such a client to be one of
its own; the server takes the empty string for an ID like any other, so a second such connection takes over from the
first. `Server.anonymous_independent` says when it does: while another one is registered, and only then.
-/

namespace OrbMQ

open Go

/-- The places of a handler up to the answer to its CONNECT, and the start of the delivery. -/
def Pc.accepts : Pc → Bool
  | .handshake | .authenticating | .rejecting _ | .acquiring | .takingOver _ | .waitingFor _ | .connack _
  | .awaiting _ .connack | .awaiting _ .refusal | .readying | .beginning => true
  | _ => false

/-- It takes over from another connection. -/
def Pc.contends : Pc → Bool
  | .takingOver _ | .waitingFor _ => true
  | _ => false

namespace Server

variable {cfg : Config} {s s' : Server} {c o : Nat} {i : Input} {e : Effect} {f : Conn → Conn}

/-- A step of the connection `c` closes another connection without a client ID, waits for it, or deletes its session or
a subscription of it. -/
inductive Disturbs (s s' : Server) (c o : Nat) : Prop
  | closes : (s.conns o).client.done = false → (s'.conns o).client.done = true → Disturbs s s' c o
  | ends {a a' : ActiveConnection} : (s.conns o).active = some a → a.closing = false →
      (s'.conns o).active = some a' → a'.closing = true → Disturbs s s' c o
  | delayed : (s'.conns c).pc = .takingOver o ∨ (s'.conns c).pc = .waitingFor o → Disturbs s s' c o
  | session {a : ActiveConnection} : (s.conns o).pc ≠ .finished → (s.conns o).active = some a →
      s.sessions.data[([] : Bytes)]? = some a.session → s'.sessions.data[([] : Bytes)]? ≠ some a.session →
      Disturbs s s' c o
  | subscription {a : ActiveConnection} {filter : Bytes} {sub : Subscription Nat} : (s.conns o).pc ≠ .finished →
      (s.conns o).active = some a → s.broker.topics.lookup filter [] = some sub → sub.subscriber = a.session →
      s'.broker.topics.lookup filter [] ≠ some sub → Disturbs s s' c o

/-- The step is no `acquireConnection` without a client ID while another connection is registered without one. -/
def alone (s : Server) : Action → Bool
  | .handler c _ => match (s.conns c).pc with
    | .acquiring => decide ((s.conns c).client.id = [] → s.clients[([] : Bytes)]? = none)
    | _ => true
  | _ => true

/-! ## Waiting for another connection -/

theorem Goes.contends {pc pc' : Pc} (hg : Goes cfg s c i pc pc') : pc'.contends = false := by
  cases hg with
  | @returned origin p err =>
    unfold published
    repeat' split
    all_goals rfl
  | @written channel reply => cases reply <;> rfl
  | @unwritten channel reply => cases reply <;> rfl
  | _ => rfl

theorem sendPacket_contends (k : Conn) (pkt : Packet) (reply : Reply) :
    (k.sendPacket pkt reply).pc.contends = false := by
  obtain ⟨client, pc, e, -, ⟨rfl, -⟩ | ⟨_, _, rfl, -⟩⟩ := k.sendPacket_sends pkt reply <;> rw [e]
  · cases reply <;> rfl
  · rfl

/-- A handler contends since its connection is not the only one with its ID. -/
theorem Turn.contends (ht : Turn cfg s c i e f) (hc : (f ((e.apply c s).conns c)).pc.contends = true) :
    (f ((e.apply c s).conns c)).client.id = (s.conns c).client.id ∧
      ((∃ o, (s.conns c).pc = .acquiring ∧ s.clients[(s.conns c).client.id]? = some o) ∨
        (s.conns c).pc.contends = true) := by
  have hnot : ∀ {pc : Pc}, pc.contends = false → pc.contends = true → False := fun h h' => by rw [h] at h'; cases h'
  cases ht with
  | takeOver hpc _ _ ho => exact ⟨(Effect.peer _ c s c).id, .inl ⟨_, hpc, ho⟩⟩
  | closePrevious hpc => exact ⟨(Effect.peer _ c s c).id, .inr (by rw [hpc]; rfl)⟩
  | goes _ hg => exact (hnot hg.contends hc).elim
  | handshake =>
    have hc : ((s.conns c).handshake cfg i).pc.contends = true := hc
    obtain e | ⟨_, -, e⟩ := (s.conns c).handshake_cases cfg i <;>
    · rw [e] at hc
      cases hc
  | reject | sends => exact (hnot (sendPacket_contends _ _ _) hc).elim
  | denied _ hcase => obtain ⟨_, -, rfl⟩ | ⟨_, _, _, _, -, rfl⟩ := hcase <;> cases hc
  | unopened =>
    dsimp only at hc
    split at hc <;> cases hc
  | serve =>
    have hc : ((s.conns c).serve cfg i).pc.contends = true := hc
    obtain e | ⟨_, -, e⟩ := (s.conns c).serve_cases cfg i <;>
    · rw [e] at hc
      cases hc
  | calls _ _ hcall =>
    cases hcall with
    | @resume ok => cases ok <;> cases hc
    | _ => cases hc
  | offer _ _ _ _ hcase => obtain rfl | rfl := hcase <;> cases hc
  | _ => cases hc

/-- While each connection without a client ID is alone when it asks for its session, none of them contends. -/
theorem step_contends (h : s.Refines cfg) (hi : ∀ c, (s.conns c).client.id = [] → (s.conns c).pc.contends = false)
    {a : Action} (ha : s.alone a = true) (hs : s.step cfg a = some s') (c : Nat) (hid : (s'.conns c).client.id = []) :
    (s'.conns c).pc.contends = false := by
  have hm := step_conn h hs c
  generalize s'.conns c = k' at hm hid
  have hsame : ∀ {k' : Conn}, k'.client.id = (s.conns c).client.id → k'.pc = (s.conns c).pc → k'.client.id = [] →
      k'.pc.contends = false := by
    intro k' e1 e2 hid
    rw [e2]
    exact hi c (e1.symm.trans hid)
  cases hm with
  | own ht =>
    by_contra hc
    rw [Bool.not_eq_false] at hc
    obtain ⟨hname, ⟨o, hpc, ho⟩ | hold⟩ := ht.contends hc
    · rw [hname] at hid
      rw [alone, hpc] at ha
      have hnone := of_decide_eq_true ha hid
      rw [hid, hnone] at ho
      cases ho
    · rw [hi c (hname.symm.trans hid)] at hold
      cases hold
  | consumer ht =>
    cases ht with
    | send => exact hsame (Client.send_id _ _) rfl hid
    | _ => exact hsame rfl rfl hid
  | write hw => exact hsame (Client.writeNext_keeps hw).1 rfl hid
  | writerExit hw => exact hsame (Client.writerExit_keeps hw).1 rfl hid
  | effect _ ht => exact hsame (Effect.peer _ _ s c).id (Effect.peer _ _ s c).pc hid
  | same => exact hi c hid

/-! ## What a connection does while its CONNECT is accepted -/

theorem not_disturbs (hconn : s'.conns o = s.conns o) (hpc : (s'.conns c).pc.contends = false)
    (hkeep : ∀ a, (s.conns o).pc ≠ .finished → (s.conns o).active = some a →
      s'.sessions.data = s.sessions.data ∧ s'.broker.topics = s.broker.topics) : ¬ Disturbs s s' c o := by
  intro hd
  cases hd with
  | closes hopen hclosed =>
    rw [hconn, hopen] at hclosed
    cases hclosed
  | ends ha hopen ha' hclosed =>
    rw [hconn, ha] at ha'
    cases ha'
    rw [hopen] at hclosed
    cases hclosed
  | delayed hwait => rcases hwait with e | e <;> rw [e] at hpc <;> cases hpc
  | session hf ha hr hgone => exact hgone (by rw [(hkeep _ hf ha).1]; exact hr)
  | subscription hf ha hl _ hgone => exact hgone (by rw [(hkeep _ hf ha).2]; exact hl)

theorem Turn.not_disturbs (h : s.Refines cfg) (ht : Turn cfg s c i e f) (hpc : (s.conns c).pc.accepts = true)
    (hid : (s.conns c).client.id = []) (hcon : (s.conns c).pc.contends = false)
    (halone : s.alone (.handler c i) = true) (ho : o ≠ c) (hido : (s.conns o).client.id = []) :
    ¬ Disturbs s ((e.apply c s).setConn c f) c o := by
  have hpc' : (((e.apply c s).setConn c f).conns c).pc.contends = false := by
    rw [conns_setConn, if_pos rfl]
    by_contra hc
    rw [Bool.not_eq_false] at hc
    obtain ⟨-, ⟨o', hacq, ho'⟩ | hold⟩ := ht.contends hc
    · rw [alone, hacq] at halone
      rw [hid, of_decide_eq_true halone hid] at ho'
      cases ho'
    · rw [hcon] at hold
      cases hold
  have hother : e.target = none → ((e.apply c s).setConn c f).conns o = s.conns o := by
    intro htarget
    rw [conns_setConn, if_neg ho, Effect.conns_eq htarget]
  -- The session that `acquireConnection` opens is nobody's: an owner would be registered.
  have hfree : s.clients[(s.conns c).client.id]? = none → e.target = none →
      ¬ Disturbs s ((e.apply c s).setConn c f) c o := by
    intro hnone htarget
    refine Server.not_disturbs (hother htarget) hpc' fun a hf ha => ?_
    have hreg := (h.owns hf ha).1
    rw [hido, ← hid, hnone] at hreg
    cases hreg
  have hout : ∀ {pc}, (s.conns c).pc = pc → pc.accepts = false → False := fun e e' => by
    rw [e, e'] at hpc
    cases hpc
  cases ht with
  | goes | handshake | authenticated | reject | sends | ready | begin | calls | offer | beginClosing | closeClient
  | serve | denied => exact Server.not_disturbs (hother rfl) hpc' fun _ _ _ => ⟨rfl, rfl⟩
  | takeOver hacq _ _ hreg =>
    rw [alone, hacq] at halone
    rw [hid, of_decide_eq_true halone hid] at hreg
    cases hreg
  | unopened _ _ _ hnone => exact hfree hnone rfl
  | acquire _ _ _ hnone => exact hfree hnone rfl
  | closePrevious hwait =>
    rw [hwait] at hcon
    cases hcon
  | route hp | unroute hp | retain hp | enqueue hp | close hp | admission hp | release hp => exact (hout hp rfl).elim

/-- `acquireConnection` finds another connection of the same owner. -/
theorem acquireConnection_registered (hfail : i.fail = false)
    (howner : ∀ r, s.sessions.get (s.conns c).client.id = some r → (s.state r).owner = (s.conns c).identity)
    (hreg : s.clients[(s.conns c).client.id]? = some o) : s.acquireConnection c i =
      (s.setConn o fun k => { k with active := k.active.map (·.beginClosing i.now) }).goto c (.takingOver o) := by
  have hany : ((s.sessions.get (s.conns c).client.id).any fun r => (s.state r).owner ≠ (s.conns c).identity) = false := by
    cases hr : s.sessions.get (s.conns c).client.id with
    | none => rfl
    | some r => simp [howner r hr]
  unfold acquireConnection
  dsimp only
  rw [if_neg (by simp [hfail]), if_neg (by rw [hany]; nofun), hreg]

/-! ## Every run -/

/-- Connections without a client ID, in a state of a run in which they were alone so far if `g`. -/
structure Independent (cfg : Config) (s : Server) (g : Bool) : Prop where
  /-- While they are alone, none of them disturbs another one as its CONNECT is accepted. -/
  undisturbed : g = true → ∀ c i s' o, s.alone (.handler c i) = true → (s.conns c).pc.accepts = true →
    (s.conns c).client.id = [] → o ≠ c → (s.conns o).client.id = [] → s.step cfg (.handler c i) = some s' →
    ¬ Disturbs s s' c o
  /-- A connection that asks for its session while another one is registered disturbs it. -/
  takesOver : ∀ c i s' o, (s.conns c).pc = .acquiring → (s.conns c).client.id = [] → i.fail = false →
    s.clients[([] : Bytes)]? = some o → s.step cfg (.handler c i) = some s' →
    o ≠ c ∧ (s.conns o).client.id = [] ∧ Disturbs s s' c o

/-- **Connections without a client ID** are independent in every run in which each of them is alone when it asks for
its session. -/
theorem anonymous_independent (cfg : Config) (hauth : cfg.auth = none) (s : Server) (g : Bool)
    (h : Recorded cfg (fun s a g => g && s.alone a) true s g) : s.Independent cfg g := by
  have hs := h.reachable.sound
  refine ⟨fun hg c i s' o halone hpc hid ho hido hstep => ?_, fun c i s' o hpc hid hfail hreg hstep => ?_⟩
  · have hcon : g = true → ∀ c, (s.conns c).client.id = [] → (s.conns c).pc.contends = false := by
      refine h.invariant (I := fun s g => g = true → ∀ c, (s.conns c).client.id = [] → (s.conns c).pc.contends = false)
        (fun _ _ _ _ _ => rfl) fun s g a s' hrec hi hstep hg => ?_
      obtain ⟨hg, ha⟩ := Bool.and_eq_true_iff.mp hg
      exact step_contends hrec.reachable.refines (hi hg) ha hstep
    cases step_moves hs.refines hstep with
    | handler _ ht => exact ht.not_disturbs hs.refines hpc hid (hcon hg c hid) halone ho hido
  · obtain ⟨hido, r, hown⟩ := hs.refines.reached.inv.clients hreg
    have hnone : (s.conns c).active = none := (hs.refines.conns c).early (by rw [hpc]; rfl)
    have hne : o ≠ c := by
      rintro rfl
      have hown : (s.conns o).owned = some r := hown
      rw [Conn.owned, hnone] at hown
      cases hown
    -- Without a policy there is only one identity.
    have howner : ∀ r, s.sessions.get (s.conns c).client.id = some r → (s.state r).owner = (s.conns c).identity := by
      intro r hr
      have hanon := ((hs.conns c).entitled (.inr (by rw [hpc]; rfl))).anonymous hauth
      rw [(h.reachable.owners hr).1 hauth, hanon]
    have hpc' : (s'.conns c).pc = .takingOver o := by
      simp only [step, handlerStep, hpc] at hstep
      repeat' split at hstep
      all_goals cases hstep
      rw [acquireConnection_registered hfail howner (by rw [hid]; exact hreg), goto, conns_setConn, if_pos rfl]
    exact ⟨hne, hido, .delayed (.inl hpc')⟩

/-- The actions of a connection without a client ID, until it is ready to serve. -/
def connectsUnnamed (c : Nat) : List Action :=
  [.accept, .handler c { raw := [0x10, 12, 0, 4, 77, 81, 84, 84, 4, 2, 0, 60, 0, 0] },
    .handler c {}, .handler c {}, .handler c {}, .write c 4 none, .handler c {}, .handler c {}, .handler c {}]

/-- Its end. -/
def leavesUnnamed (c : Nat) : List Action :=
  [.handler c { fail := true }, .handler c {}, .handler c {}, .handler c {}, .consumer c {}, .handler c {},
    .writerExit c, .handler c {}, .handler c {}]

theorem anonymous_independent_later : ∃ s, Recorded openConfig (fun s a g => g && s.alone a) true s true ∧
    (s.conns 1).client.id = [] ∧ s.clients[([] : Bytes)]? = some 1 ∧ s.Independent openConfig true := by
  have hrun : ((Sys.run (Sys.record (step openConfig) fun s a g => g && s.alone a) (fresh, true)
      (connectsUnnamed 0 ++ leavesUnnamed 0 ++ connectsUnnamed 1)).map fun x =>
        (x.2, (x.1.conns 1).client.id, x.1.clients[([] : Bytes)]?)) = some (true, [], some 1) := by decide +kernel
  obtain ⟨⟨s, g⟩, hs, he⟩ := Option.map_eq_some_iff.mp hrun
  simp only [Prod.mk.injEq] at he
  obtain ⟨rfl, hid, hreg⟩ := he
  exact ⟨s, recorded_fresh hs, hid, hreg, anonymous_independent openConfig rfl s true (recorded_fresh hs)⟩

/-- A second connection without a client ID closes the first one. -/
theorem anonymous_cutOff : ∃ s s', Reachable openConfig s ∧ (s.conns 0).client.id = [] ∧ (s.conns 1).client.id = [] ∧
    (s.conns 1).connect.cleanSession = true ∧ s.clients[([] : Bytes)]? = some 0 ∧
    s.step openConfig (.handler 1 {}) = some s' ∧
    (s.conns 0).client.done = false ∧ (s'.conns 0).client.done = true := by
  have hrun : ((Sys.run (step openConfig) fresh (connectsUnnamed 0 ++ (connectsUnnamed 1).take 4)).map fun s =>
      ([(s.conns 0).client.id, (s.conns 1).client.id], s.clients[([] : Bytes)]?,
        [(s.conns 1).connect.cleanSession, (s.conns 0).client.done],
        (s.step openConfig (.handler 1 {})).map fun s' => (s'.conns 0).client.done)) =
      some ([[], []], some 0, [true, false], some true) := by decide +kernel
  obtain ⟨s, hs, he⟩ := Option.map_eq_some_iff.mp hrun
  simp only [Prod.mk.injEq, List.cons.injEq, Option.map_eq_some_iff, and_true] at he
  obtain ⟨⟨hid, hid'⟩, hreg, ⟨hclean, hopen⟩, s', hstep, hclosed⟩ := he
  exact ⟨s, s', reachable_fresh hs, hid, hid', hclean, hreg, hstep, hopen, hclosed⟩

end Server

end OrbMQ
