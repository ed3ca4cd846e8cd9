import OrbMQ.Server.Lifetime
import OrbMQ.Server.Response

/-!
# The lifetime of a session

`Server.step_fate` says why a session goes. What is left is when: the time to live counts from the instant at
which the last connection of the session began to close, though the session learns it only when that connection
is through with its cleanup. The history variable `Life` has the instant of every connection, the last connection
of every session, and whether a connection got a session that was there before. `Server.session_lifetime` is about
every run.
-/

namespace OrbMQ

open Go

/-- The clock at an action. -/
def Action.now : Action → Time
  | .handler _ i => i.now
  | .sweep now _ => now
  | _ => 0

def Conn.closes (k : Conn) : Bool := k.active.any (·.closing)

/-- The places of a handler after `beginClosing`. -/
def Pc.cleanup : Pc → Bool
  | .closingClient | .joining | .waitingWriter | .closingSession | .finished => true
  | _ => false

/-- What is remembered of a run. -/
structure Life where
  /-- When the connection began to close. -/
  began : Nat → Option Time := fun _ => none
  /-- The last connection that owned the session. -/
  last : Nat → Option Nat := fun _ => none
  /-- Whether the connection asked for its session to be kept, and got one that was stored and not overdue. -/
  resumed : Nat → Option Bool := fun _ => none

/-- The connection `c` gets the session of `a'` in the step from `s`. -/
def Life.acquire (s : Server) (now : Time) (c : Nat) (a' : ActiveConnection) (g : Life) : Life :=
  { g with
    last := Function.update g.last a'.session (some c)
    resumed := Function.update g.resumed c (some (decide ((s.conns c).connect.cleanSession = false ∧
      s.sessions.data[(s.conns c).client.id]? = some a'.session ∧ ¬ s.sessions.Overdue now a'.session))) }

def Life.note (cfg : Config) (s : Server) (a : Action) (g : Life) : Life :=
  match s.step cfg a with
  | none => g
  | some s' =>
    let g := { g with began := fun c =>
      if (s.conns c).closes = false ∧ (s'.conns c).closes = true then some a.now else g.began c }
    match a with
    | .handler c _ =>
      match (s.conns c).active, (s'.conns c).active with
      | none, some a' => g.acquire s a.now c a'
      | _, _ => g
    | _ => g

/-! ## The flags of an owner -/

namespace Server

variable {cfg : Config} {s s' : Server} {c : Nat} {i : Input} {e : Effect} {f : Conn → Conn} {g : Life}

/-- What a step does to the owner of the connection `c`, which becomes `k`. -/
inductive ActiveMoves (s : Server) (c : Nat) : Action → Conn → Prop
  | same {a : Action} {k : Conn} : k.active = (s.conns c).active → ActiveMoves s c a k
  | ready {a : Action} {k : Conn} : k.active = (s.conns c).active.map ({ · with ready := true }) →
      ActiveMoves s c a k
  | closing {a : Action} {k : Conn} : k.active = (s.conns c).active.map (·.beginClosing a.now) →
      ActiveMoves s c a k
  | release {a : Action} {k : Conn} {owner : ActiveConnection} : (s.conns c).active = some owner →
      k.active = some { owner with done := true } → ActiveMoves s c a k
  | acquire {i : Input} {r : Nat} {present : Bool} : (s.conns c).pc = .acquiring →
      (s.openSession (s.conns c).connect (s.conns c).identity i).1 = .ok (r, present) →
      ActiveMoves s c (.handler c i) { s.conns c with
        active := some { session := r, cleanSession := (s.conns c).connect.cleanSession }, pc := .connack present }

/-- A takeover is the only effect on the owner of a connection. -/
theorem effect_active (e : Effect) (c : Nat) (s : Server) (o : Nat) :
    ((e.apply c s).conns o).active = (s.conns o).active ∨ ∃ now, e = .takeOver o now ∧
      ((e.apply c s).conns o).active = (s.conns o).active.map (·.beginClosing now) := by
  cases e with
  | enqueue o' raw | close o' =>
    left
    rw [Effect.apply, conns_setConn]
    split
    · rename_i e
      subst e
      rfl
    · rfl
  | takeOver o' now =>
    rw [Effect.apply, conns_setConn]
    split
    · rename_i e
      subst e
      exact .inr ⟨now, rfl, rfl⟩
    · exact .inl rfl
  | _ =>
    left
    rw [Effect.conns_eq rfl]

theorem ActiveMoves.effect (ht : Turn cfg s c i e f) {o : Nat} {k : Conn}
    (hk : k.active = ((e.apply c s).conns o).active) : ActiveMoves s o (.handler c i) k := by
  obtain h | ⟨now, rfl, h⟩ := effect_active e c s o <;> rw [h] at hk
  · exact .same hk
  · cases ht
    exact .closing hk

theorem ActiveMoves.own (ht : Turn cfg s c i e f) : ActiveMoves s c (.handler c i) (f ((e.apply c s).conns c)) := by
  have heffect : ∀ k : Conn, k.active = ((e.apply c s).conns c).active → ActiveMoves s c (.handler c i) k :=
    fun _ hk => .effect ht hk
  have hsend : ∀ (k : Conn) (pkt : Packet) (reply : Reply), (k.sendPacket pkt reply).active = k.active := by
    intro k pkt reply
    obtain ⟨client, pc, e, -⟩ := k.sendPacket_sends pkt reply
    rw [e]
  cases ht with
  | handshake =>
    show ActiveMoves s c _ ((s.conns c).handshake cfg i)
    obtain e | ⟨connect, -, e⟩ := (s.conns c).handshake_cases cfg i <;> rw [e] <;> exact .same rfl
  | reject | sends => exact heffect _ (hsend _ _ _)
  | serve =>
    show ActiveMoves s c _ ((s.conns c).serve cfg i)
    obtain e | ⟨pkt, -, e⟩ := (s.conns c).serve_cases cfg i <;> rw [e] <;> exact .same rfl
  | acquire hpc _ _ _ ho =>
    rw [Effect.conns_eq rfl]
    exact .acquire hpc ho
  | ready => exact .ready rfl
  | beginClosing => exact .closing rfl
  | release _ _ ha => exact .release ha rfl
  | _ => exact heffect _ rfl

theorem step_active (h : s.Refines cfg) {a : Action} (hs : s.step cfg a = some s') (c : Nat) :
    ActiveMoves s c a (s'.conns c) := by
  have hm := step_conn h hs c
  generalize s'.conns c = k' at hm
  cases hm with
  | own ht => exact .own ht
  | consumer ht => cases ht <;> exact .same rfl
  | effect _ ht => exact .effect ht rfl
  | write | writerExit | same => exact .same rfl

/-- When a connection is found to close, it did so before, or it began now. -/
theorem ActiveMoves.closing_at {a : Action} {k : Conn} (h : ActiveMoves s c a k)
    {a' : ActiveConnection} (ha' : k.active = some a') (hc : a'.closing = true) :
    (∃ a₀, (s.conns c).active = some a₀ ∧ a₀.closing = true ∧ a₀.disconnectedAt = a'.disconnectedAt) ∨
      ((s.conns c).closes = false ∧ a'.disconnectedAt = a.now) := by
  cases h with
  | same e => exact .inl ⟨a', e ▸ ha', hc, rfl⟩
  | ready e =>
    obtain ⟨a₀, ha₀, rfl⟩ := Option.map_eq_some_iff.mp (e ▸ ha')
    exact .inl ⟨a₀, ha₀, hc, rfl⟩
  | closing e =>
    obtain ⟨a₀, ha₀, rfl⟩ := Option.map_eq_some_iff.mp (e ▸ ha')
    by_cases hold : a₀.closing = true
    · refine .inl ⟨a₀, ha₀, hold, ?_⟩
      simp [ActiveConnection.beginClosing, hold]
    · refine .inr ⟨?_, ?_⟩
      · simpa [Conn.closes, ha₀] using hold
      · simp [ActiveConnection.beginClosing, hold]
  | release ha e =>
    cases e.symm.trans ha'
    exact .inl ⟨_, ha, hc, rfl⟩
  | acquire =>
    cases ha'
    cases hc

/-- A connection gets a session in its own section. -/
theorem ActiveMoves.acquired {a : Action} {k : Conn} (h : ActiveMoves s c a k) (ha : (s.conns c).active = none)
    {a' : ActiveConnection} (ha' : k.active = some a') :
    ∃ i present, a = .handler c i ∧ (s.conns c).pc = .acquiring ∧
      (s.openSession (s.conns c).connect (s.conns c).identity i).1 = .ok (a'.session, present) ∧
      a'.cleanSession = (s.conns c).connect.cleanSession ∧ k = { s.conns c with active := some a', pc := .connack present } := by
  cases h with
  | same e | ready e | closing e =>
    rw [e, ha] at ha'
    cases ha'
  | release ha₀ =>
    rw [ha] at ha₀
    cases ha₀
  | acquire hpc ho =>
    cases ha'
    exact ⟨_, _, rfl, hpc, ho, rfl, rfl⟩

/-! ## The places of a handler -/

theorem Leads.cleanup {pc pc' : Pc} (hlead : Leads pc pc') (hl : pc'.cleanup = true) :
    pc.cleanup = true ∨ pc = .deferred ∨ pc = .handshake := by
  cases hlead with
  | beginClosing => exact .inr (.inl rfl)
  | unread => exact .inr (.inr rfl)
  | @written channel reply => cases reply <;> cases hl
  | @unwritten channel reply => cases reply <;> cases hl
  | _ => first | exact .inl rfl | cases hl

theorem deferred_closing (hpc : (s.conns c).pc = .deferred) (hs : s.handlerStep cfg c i = some s')
    {a : ActiveConnection} (ha : (s'.conns c).active = some a) : a.closing = true := by
  simp only [handlerStep, hpc] at hs
  split at hs
  · cases hs
    rename_i hnone
    rw [goto, conns_setConn, if_pos rfl] at ha
    cases hnone.symm.trans ha
  · split at hs
    · cases hs
      rw [conns_setConn, if_pos rfl] at ha
      obtain ⟨a₀, -, rfl⟩ := Option.map_eq_some_iff.mp ha
      unfold ActiveConnection.beginClosing
      split <;> simp_all
    · cases hs

/-- A handler gets to its last places with an owner that closes, or with none. -/
theorem step_cleanup (h : s.Refines cfg) {a : Action} (hs : s.step cfg a = some s') (c : Nat)
    (hl : (s'.conns c).pc.cleanup = true) :
    (s.conns c).pc.cleanup = true ∨ ∀ a, (s'.conns c).active = some a → a.closing = true := by
  obtain e | ⟨i, rfl⟩ := step_pc h hs c
  · exact .inl (e ▸ hl)
  · have hstep := step_handler hs
    obtain hwas | hpc | hpc := (step_leads h hs).cleanup hl
    · exact .inl hwas
    · exact .inr fun a => deferred_closing hpc hstep
    · have hnone := (h.conns c).early (by rw [hpc]; rfl)
      simp only [handlerStep, hpc, Option.some.injEq] at hstep
      rw [← hstep, conns_setConn, if_pos rfl]
      refine .inr fun a ha => ?_
      obtain e | ⟨_, -, e⟩ := (s.conns c).handshake_cases cfg i <;>
      · rw [e] at ha
        cases hnone.symm.trans ha

/-- The CONNACK is sent right after the session was acquired. -/
theorem Leads.connack_inv {pc : Pc} {present : Bool} (hl : Leads pc (.connack present)) : pc = .acquiring := by
  generalize hpc' : Pc.connack present = pc' at hl
  cases hl with
  | acquire => rfl
  | @written channel reply => cases reply <;> cases hpc'
  | @unwritten channel reply => cases reply <;> cases hpc'
  | _ => cases hpc'

theorem step_connack (h : s.Refines cfg) {a : Action} (hs : s.step cfg a = some s') (c : Nat) {present : Bool}
    (hpc' : (s'.conns c).pc = .connack present) :
    (s.conns c).pc = .connack present ∨ (s.conns c).pc = .acquiring := by
  obtain e | ⟨i, rfl⟩ := step_pc h hs c
  · exact .inl (e ▸ hpc')
  · have hl := step_leads h hs
    rw [hpc'] at hl
    exact .inr hl.connack_inv

/-- Publications go to connections that have their CONNACK. -/
theorem Turn.unanswered (hs : s.Sound cfg) (hk : ∀ c, (s.conns c).Greeting) (ht : Turn cfg s c i e f) (o : Nat)
    (hempty : (s.conns o).client.accepted = []) : ((e.apply c s).conns o).client.accepted = [] := by
  cases ht with
  | takeOver | closePrevious | close =>
    rw [Effect.apply, conns_setConn]
    split
    · rename_i e
      exact e ▸ hempty
    · exact hempty
  | @enqueue origin p cache err o' raw subs hpc =>
    have hplace := (hs.conns c).place
    rw [hpc] at hplace
    obtain ⟨-, -, -, -, -, -, hready⟩ := hplace
    rw [Effect.apply, conns_setConn]
    split
    · rename_i e
      obtain ⟨⟨present, rest, hacc⟩, -⟩ := (hk o').welcomed (.inr (.inr hready))
      rw [← e, hempty] at hacc
      cases hacc
    · exact hempty
  | _ =>
    rw [Effect.conns_eq rfl]
    exact hempty

/-- A packet that is the first of its connection. -/
theorem sendPacket_first {k : Conn} (hk : k.client.accepted = []) {pkt : Packet} {reply : Reply} {raw : Bytes}
    {rest : List Bytes} (h : (k.sendPacket pkt reply).client.accepted = raw :: rest) :
    encode pkt [] = .ok () raw := by
  obtain ⟨client, pc, e, -, ⟨-, hacc, -⟩ | ⟨channel, raw', -, henc, hsend⟩⟩ := k.sendPacket_sends pkt reply <;>
    rw [e] at h
  · cases (hacc.trans hk).symm.trans h
  · have hacc := Client.send_ok hsend
    rw [hk, List.nil_append] at hacc
    cases hacc.symm.trans h
    exact henc

/-- The first packet of an accepted connection is the CONNACK of `sendConnAck`. -/
theorem step_greets (hs : s.Sound cfg) (hk : ∀ c, (s.conns c).Greeting) {a : Action} (hstep : s.step cfg a = some s')
    (hempty : (s.conns c).client.accepted = []) {present : Bool} {rest : List Bytes}
    (hacc : (s'.conns c).client.accepted = connAckBytes present .accepted :: rest) :
    (s.conns c).pc = .connack present := by
  have hsilent : (s.conns c).Silent := by
    rcases hk c with h | ⟨⟨_, _, e⟩, -⟩ | ⟨⟨_, -, e⟩, -⟩
    · exact h
    all_goals cases hempty.symm.trans e
  obtain ⟨-, -, hconsumer, hrejecting, hphase⟩ := hsilent
  have hno : ∀ {client : Client}, client.accepted = [] → client.accepted = connAckBytes present .accepted :: rest →
      (s.conns c).pc = .connack present := fun h h' => nomatch h.symm.trans h'
  have hserving : (s.conns c).pc.phase ≠ .serving := fun e => by
    rw [e] at hphase
    rcases hphase with h | h <;> cases h
  have hm := step_conn hs.refines hstep c
  generalize s'.conns c = k' at hm hacc
  cases hm with
  | @own i e f ht =>
    have hk₁ := ht.unanswered hs hk c hempty
    cases ht with
    | handshake =>
      have hacc : ((s.conns c).handshake cfg i).client.accepted = _ := hacc
      obtain e | ⟨_, -, e⟩ := (s.conns c).handshake_cases cfg i <;> rw [e] at hacc
      · exact hno hempty hacc
      · cases hacc
    | @reject code _ _ hpc =>
      have hbytes := encode_connAck (sendPacket_first hk₁ hacc)
      exact absurd (connAckBytes_inj hbytes).2.symm (hrejecting code hpc).2
    | sends hpc hsend =>
      obtain ⟨present', rfl, rfl, rfl⟩ | ⟨e, -⟩ := hsend.serving
      · have hbytes := encode_connAck (sendPacket_first hk₁ hacc)
        rw [hpc, (connAckBytes_inj hbytes).1]
      · exact (hserving (hpc ▸ e)).elim
    | serve =>
      have hacc : ((s.conns c).serve cfg i).client.accepted = _ := hacc
      obtain e | ⟨_, -, e⟩ := (s.conns c).serve_cases cfg i <;> rw [e] at hacc <;> exact hno hempty hacc
    | offer hpc => exact (hserving (by rw [hpc]; rfl)).elim
    | _ => exact hno hk₁ hacc
  | consumer ht => exact (ht.started hconsumer).elim
  | effect _ ht => exact hno (ht.unanswered hs hk c hempty) hacc
  | write hw => exact hno ((Client.writeNext_keeps hw).2.trans hempty) hacc
  | writerExit hw => exact hno ((Client.writerExit_keeps hw).2.trans hempty) hacc
  | same => exact hno hempty hacc

theorem step_finished (h : s.Refines cfg) {a : Action} (hs : s.step cfg a = some s') (c : Nat)
    (hpc : (s.conns c).pc = .finished) : (s'.conns c).pc = .finished := by
  obtain e | ⟨i, rfl⟩ := step_pc h hs c
  · exact e.trans hpc
  · simp [step, handlerStep, hpc] at hs

/-- Whether `openSession` finds a session. -/
theorem opens_present (h : s.sessions.Inv) {connect : ConnectPacket} {identity : Bytes} {r : Nat} {present : Bool}
    (ho : (s.openSession connect identity i).1 = .ok (r, present)) :
    present = decide (connect.cleanSession = false ∧ s.sessions.data[connect.clientID]? = some r ∧
      ¬ s.sessions.Overdue i.now r) := by
  have hopens := openSession_opens h connect identity i
  rw [ho] at hopens
  generalize (s.openSession connect identity i).2.sessions = st at hopens
  cases hopens with
  | resumed hr hnot hclean => simp [hr, hnot, hclean]
  | @created st hcleared =>
    -- The new session has a number of its own.
    have hne : s.sessions.data[connect.clientID]? ≠ some st.allocated := fun hr => by
      have hlt := (h.stored _ _ hr).1
      rw [hcleared.allocated] at hlt
      exact Nat.lt_irrefl _ hlt
    simp [hne]

/-! ## The history of a run -/

/-- What a step adds to the history: somebody acquires a session, or nobody does. -/
theorem note_cases (h : s.Refines cfg) {a : Action} (hs : s.step cfg a = some s') :
    (∃ c i a' present, a = .handler c i ∧ (s.conns c).pc = .acquiring ∧ (s.conns c).active = none ∧
      (s.openSession (s.conns c).connect (s.conns c).identity i).1 = .ok (a'.session, present) ∧
      a'.cleanSession = (s.conns c).connect.cleanSession ∧
      s'.conns c = { s.conns c with active := some a', pc := .connack present } ∧
      (Life.note cfg s a g).last = Function.update g.last a'.session (some c) ∧
      (Life.note cfg s a g).resumed = Function.update g.resumed c (some (decide
        ((s.conns c).connect.cleanSession = false ∧
          s.sessions.data[(s.conns c).client.id]? = some a'.session ∧ ¬ s.sessions.Overdue i.now a'.session)))) ∨
      ((∀ c, (s.conns c).active = none → (s'.conns c).active = none) ∧
        (Life.note cfg s a g).last = g.last ∧ (Life.note cfg s a g).resumed = g.resumed) := by
  by_cases hacq : ∃ c a', (s.conns c).active = none ∧ (s'.conns c).active = some a'
  · obtain ⟨c, a', ha, ha'⟩ := hacq
    obtain ⟨i, present, rfl, hpc, ho, hclean, hk⟩ := (step_active h hs c).acquired ha ha'
    refine .inl ⟨c, i, a', present, rfl, hpc, ha, ho, hclean, hk, ?_⟩
    simp only [Life.note, hs, ha, ha']
    exact ⟨rfl, rfl⟩
  · have hnone : ∀ c, (s.conns c).active = none → (s'.conns c).active = none := by
      intro c ha
      by_contra hne
      obtain ⟨a', ha'⟩ := Option.ne_none_iff_exists'.mp hne
      exact hacq ⟨c, a', ha, ha'⟩
    refine .inr ⟨hnone, ?_⟩
    simp only [Life.note, hs]
    cases a with
    | handler c i =>
      dsimp only
      split
      · rename_i ha ha'
        exact (hacq ⟨c, _, ha, ha'⟩).elim
      · exact ⟨rfl, rfl⟩
    | _ => exact ⟨rfl, rfl⟩

theorem note_began {a : Action} (hs : s.step cfg a = some s') (c : Nat) : (Life.note cfg s a g).began c =
    if (s.conns c).closes = false ∧ (s'.conns c).closes = true then some a.now else g.began c := by
  simp only [Life.note, hs]
  cases a with
  | handler c' i =>
    dsimp only
    split <;> rfl
  | _ => rfl

/-- The history is right. -/
structure Lived (s : Server) (g : Life) : Prop where
  began : ∀ c a, (s.conns c).active = some a → a.closing = true → g.began c = some a.disconnectedAt
  cleanup : ∀ c a, (s.conns c).pc.cleanup = true → (s.conns c).active = some a → a.closing = true
  last : ∀ c a, (s.conns c).active = some a → (s.conns c).pc ≠ .finished → g.last a.session = some c
  clean : ∀ c a, (s.conns c).active = some a → a.cleanSession = (s.conns c).connect.cleanSession
  /-- A session that is offline was left by its last connection. -/
  offline : ∀ (id : Bytes) r, s.sessions.data[id]? = some r → (s.state r).connected = false →
    ∃ c a, g.last r = some c ∧ (s.conns c).active = some a ∧ a.closing = true ∧
      (s.state r).offlineSince = some a.disconnectedAt
  connack : ∀ c present, (s.conns c).pc = .connack present → g.resumed c = some present
  greeted : ∀ c present rest, (s.conns c).client.accepted = connAckBytes present .accepted :: rest →
    g.resumed c = some present

theorem Lived.init (retainedLimits : RetainedLimits) (limits : Limits) :
    Lived { broker := { limits := retainedLimits }, sessions := { limits } } {} where
  began _ _ ha := nomatch ha
  cleanup _ _ _ ha := nomatch ha
  last _ _ ha := nomatch ha
  clean _ _ ha := nomatch ha
  offline _ _ hr := by simp at hr
  connack _ _ hpc := nomatch hpc
  greeted _ _ _ hacc := nomatch hacc

section Step

variable (hs : s.Sound cfg) (h : s.Lived g) {a : Action} (hstep : s.step cfg a = some s')

include hs h hstep

theorem Lived.began_step (c : Nat) (a' : ActiveConnection) (ha' : (s'.conns c).active = some a')
    (hc : a'.closing = true) : (Life.note cfg s a g).began c = some a'.disconnectedAt := by
  have hcloses : (s'.conns c).closes = true := by simp [Conn.closes, ha', hc]
  rw [note_began hstep]
  obtain ⟨a₀, ha₀, hc₀, hat⟩ | ⟨hnot, hat⟩ := (step_active hs.refines hstep c).closing_at ha' hc
  · have hcloses₀ : (s.conns c).closes = true := by simp [Conn.closes, ha₀, hc₀]
    rw [if_neg (by simp [hcloses₀]), h.began c a₀ ha₀ hc₀, hat]
  · rw [if_pos ⟨hnot, hcloses⟩, hat]

theorem Lived.cleanup_step (c : Nat) (a' : ActiveConnection) (hpc' : (s'.conns c).pc.cleanup = true)
    (ha' : (s'.conns c).active = some a') : a'.closing = true := by
  obtain hpc | hc := step_cleanup hs.refines hstep c hpc'
  · cases ha : (s.conns c).active with
    | none =>
      obtain ⟨-, -, -, hacq, -⟩ := (step_active hs.refines hstep c).acquired ha ha'
      rw [hacq] at hpc
      cases hpc
    | some a₀ =>
      obtain ⟨a₁, ha₁, -, -, hclosing, -⟩ := ((step_later hs.refines hstep).conns c).owner a₀ ha
      cases ha₁.symm.trans ha'
      exact (hclosing (h.cleanup c a₀ hpc ha)).1
  · exact hc a' ha'

theorem Lived.last_step (c : Nat) (a' : ActiveConnection) (ha' : (s'.conns c).active = some a')
    (hpc' : (s'.conns c).pc ≠ .finished) : (Life.note cfg s a g).last a'.session = some c := by
  have hs' := hs.step hstep
  have hpc : (s.conns c).pc ≠ .finished := fun e => hpc' (step_finished hs.refines hstep c e)
  -- The session of a connection that has one is not acquired by another.
  obtain ⟨c₀, i, a₀, present, rfl, -, ha₀, -, -, hk, hlast, -⟩ | ⟨hnone, hlast, -⟩ := note_cases (g := g) hs.refines hstep
  · rw [hlast]
    by_cases hcc : c₀ = c
    · subst hcc
      rw [hk] at ha'
      cases ha'
      exact Function.update_self ..
    · cases ha : (s.conns c).active with
      | none =>
        obtain ⟨_, _, e, -⟩ := (step_active hs.refines hstep c).acquired ha ha'
        exact (hcc (Action.handler.inj e).1).elim
      | some a₁ =>
        obtain ⟨a₂, ha₂, hsession, -⟩ := ((step_later hs.refines hstep).conns c).owner a₁ ha
        cases ha₂.symm.trans ha'
        have hown := (hs'.refines.conns c).owned hpc' ha'
        have hown₀ := (hs'.refines.conns c₀).owned (a := a₀) (by rw [hk]; nofun) (by rw [hk])
        have hne : a'.session ≠ a₀.session := fun e =>
          hcc (hs'.refines.reached.inv.session_unique hown (e ▸ hown₀))
        rw [Function.update_of_ne hne, hsession]
        exact h.last c a₁ ha hpc
  · rw [hlast]
    cases ha : (s.conns c).active with
    | none => cases (hnone c ha).symm.trans ha'
    | some a₁ =>
      obtain ⟨a₂, ha₂, hsession, -⟩ := ((step_later hs.refines hstep).conns c).owner a₁ ha
      cases ha₂.symm.trans ha'
      rw [hsession]
      exact h.last c a₁ ha hpc

theorem Lived.clean_step (c : Nat) (a' : ActiveConnection) (ha' : (s'.conns c).active = some a') :
    a'.cleanSession = (s'.conns c).connect.cleanSession := by
  cases ha : (s.conns c).active with
  | none =>
    obtain ⟨_, _, -, -, -, hclean, hk⟩ := (step_active hs.refines hstep c).acquired ha ha'
    rw [hk]
    exact hclean
  | some a₀ =>
    have hl := (step_later hs.refines hstep).conns c
    obtain ⟨a₁, ha₁, -, hclean, -⟩ := hl.owner a₀ ha
    cases ha₁.symm.trans ha'
    rw [hclean, (hl.named (by simp [ha])).2.1]
    exact h.clean c a₀ ha

theorem Lived.offline_step (id : Bytes) (r : Nat) (hr' : s'.sessions.data[id]? = some r)
    (hoff : (s'.state r).connected = false) :
    ∃ c a', (Life.note cfg s a g).last r = some c ∧ (s'.conns c).active = some a' ∧ a'.closing = true ∧
      (s'.state r).offlineSince = some a'.disconnectedAt := by
  have hs' := hs.step hstep
  have hl := step_later hs.refines hstep
  -- A session that is acquired is not offline.
  have hnot : ∀ c₀ a₀ present, s'.conns c₀ = { s.conns c₀ with active := some a₀, pc := .connack present } →
      a₀.session ≠ r := by
    rintro c₀ a₀ present hk rfl
    have hcon := (hs'.refines.owns (c := c₀) (a := a₀) (by rw [hk]; nofun) (by rw [hk])).2.2.1
    rw [hoff] at hcon
    cases hcon
  have hlast : (Life.note cfg s a g).last r = g.last r := by
    obtain ⟨c₀, i, a₀, present, -, -, -, -, -, hk, hlast, -⟩ | ⟨-, hlast, -⟩ := note_cases (g := g) hs.refines hstep
    · rw [hlast, Function.update_of_ne (hnot c₀ a₀ present hk).symm]
    · rw [hlast]
  -- What the last connection left is as it was.
  have hkept : ∀ c a₀, g.last r = some c → (s.conns c).active = some a₀ → a₀.closing = true →
      (s'.state r).offlineSince = some a₀.disconnectedAt →
      ∃ c a', (Life.note cfg s a g).last r = some c ∧ (s'.conns c).active = some a' ∧ a'.closing = true ∧
        (s'.state r).offlineSince = some a'.disconnectedAt := by
    intro c a₀ hc ha₀ hclosing hsince
    obtain ⟨a₁, ha₁, -, -, hcl, -⟩ := (hl.conns c).owner a₀ ha₀
    obtain ⟨hcl, hat⟩ := hcl hclosing
    exact ⟨c, a₁, hlast.trans hc, ha₁, hcl, hat ▸ hsince⟩
  obtain hr | ⟨c, i, a₀, -, -, hpc, -, ha₀, hsession, -⟩ := step_stored hs hstep hr'
  · cases step_fate hs.refines hstep hr with
    | stays _ hcon hsince =>
      obtain ⟨c, a₀, hc, ha₀, hclosing, hold⟩ := h.offline id r hr (hcon.symm.trans hoff)
      exact hkept c a₀ hc ha₀ hclosing (hsince.trans hold)
    | resumed _ _ _ _ _ _ _ _ hcon =>
      rw [hoff] at hcon
      cases hcon
    | @released c i a₀ hpc ha₀ hsession _ _ _ hsince =>
      have hclosing := h.cleanup c a₀ (by rw [hpc]; rfl) ha₀
      exact hkept c a₀ (hsession ▸ h.last c a₀ ha₀ (by rw [hpc]; nofun)) ha₀ hclosing hsince
    | cleaned _ _ _ _ hgone | expired _ _ _ _ hgone => exact (hgone hr').elim
    | closed _ _ _ _ hgone | swept _ _ hgone => cases hgone.symm.trans hr'
  · have hnone := (hs.refines.conns c).early (by rw [hpc]; rfl)
    obtain ⟨_, present, -, -, -, -, hk⟩ := (step_active hs.refines hstep c).acquired hnone ha₀
    exact (hnot c a₀ present hk hsession).elim

omit h in
theorem resumed_kept (c : Nat) (ha : (s.conns c).active ≠ none) : (Life.note cfg s a g).resumed c = g.resumed c := by
  obtain ⟨c₀, i, a₀, present, -, -, ha₀, -, -, -, -, hresumed⟩ | ⟨-, -, hresumed⟩ :=
    note_cases (g := g) hs.refines hstep
  · rw [hresumed, Function.update_of_ne]
    rintro rfl
    exact ha ha₀
  · rw [hresumed]

/-- The flag of the CONNACK is what the history says. -/
theorem Lived.connack_step (c : Nat) (present : Bool) (hpc' : (s'.conns c).pc = .connack present) :
    (Life.note cfg s a g).resumed c = some present := by
  obtain hpc | hpc := step_connack hs.refines hstep c hpc'
  · rw [resumed_kept hs hstep c ((hs.conns c).serves (by rw [hpc]; rfl))]
    exact h.connack c present hpc
  · have ha : (s.conns c).active = none := (hs.refines.conns c).early (by rw [hpc]; rfl)
    have hne : (s'.conns c).active ≠ none := ((hs.step hstep).conns c).serves (by rw [hpc']; rfl)
    obtain ⟨a', ha'⟩ := Option.ne_none_iff_exists'.mp hne
    obtain ⟨i, _, rfl, -⟩ := (step_active hs.refines hstep c).acquired ha ha'
    obtain ⟨c₀, _, a₀, present₀, e, -, -, ho, -, hk, -, hresumed⟩ | ⟨hnone, -⟩ := note_cases (g := g) hs.refines hstep
    · cases e
      rw [hk] at hpc'
      cases hpc'
      rw [hresumed, Function.update_self, opens_present hs.refines.store ho, (hs.refines.conns c).named]
    · exact (hne (hnone c ha)).elim

theorem Lived.greeted_step (hk : ∀ c, (s.conns c).Greeting) (c : Nat) (present : Bool) (rest : List Bytes)
    (hacc' : (s'.conns c).client.accepted = connAckBytes present .accepted :: rest) :
    (Life.note cfg s a g).resumed c = some present := by
  by_cases hempty : (s.conns c).client.accepted = []
  · have hpc := step_greets hs hk hstep hempty hacc'
    rw [resumed_kept hs hstep c ((hs.conns c).serves (by rw [hpc]; rfl))]
    exact h.connack c present hpc
  · -- The first packet stays the first one.
    have hpc : (s.conns c).pc ≠ .handshake := fun e => hempty ((hk c).silent (by rw [e]; rfl)).1
    have hgrow := ((step_later hs.refines hstep).conns c).accepted hpc
    obtain ⟨raw, more, hacc⟩ := List.exists_cons_of_ne_nil hempty
    rw [hacc, hacc', List.cons_prefix_cons] at hgrow
    obtain ⟨rfl, -⟩ := hgrow
    have ha : (s.conns c).active ≠ none := by
      rcases hk c with ⟨e, -⟩ | ⟨-, ha, -⟩ | ⟨⟨code, hcode, e⟩, -⟩
      · exact (hempty e).elim
      · exact ha
      · have hbytes := (List.cons.inj (hacc.symm.trans e)).1
        exact (hcode (connAckBytes_inj hbytes).2.symm).elim
    rw [resumed_kept hs hstep c ha]
    exact h.greeted c present more hacc

end Step

theorem Lived.step (hr : Reachable cfg s) (h : s.Lived g) {a : Action} (hstep : s.step cfg a = some s') :
    s'.Lived (Life.note cfg s a g) where
  began := h.began_step hr.sound hstep
  cleanup := h.cleanup_step hr.sound hstep
  last := h.last_step hr.sound hstep
  clean := h.clean_step hr.sound hstep
  offline := h.offline_step hr.sound hstep
  connack := h.connack_step hr.sound hstep
  greeted := h.greeted_step hr.sound hstep hr.greeting

/-! ## Every run -/

/-- What is said of the sessions in a state of a run with the history `g`, and of every step from it. -/
structure Lifetime (cfg : Config) (s : Server) (g : Life) : Prop where
  /-- A session is removed by an acquirer that wants a clean one, by its owner that had a clean one, or since it
  is unowned and was left long ago. -/
  removed : ∀ a s' (id : Bytes) r, s.step cfg a = some s' → s.sessions.data[id]? = some r →
    s'.sessions.data[id]? ≠ some r →
    (∃ c i, a = .handler c i ∧ (s.conns c).pc = .acquiring ∧ (s.conns c).client.id = id ∧
      (s.conns c).connect.cleanSession = true) ∨
    (∃ c i owner, a = .handler c i ∧ (s.conns c).pc = .closingSession ∧ s.clients[id]? = some c ∧
      (s.conns c).active = some owner ∧ owner.session = r ∧ (s.conns c).connect.cleanSession = true) ∨
    (0 < s.sessions.limits.offlineTTL ∧ s.clients[id]? = none ∧
      ((∃ now order, a = .sweep now order) ∨
        ∃ c i, a = .handler c i ∧ (s.conns c).pc = .acquiring ∧ (s.conns c).client.id = id) ∧
      ∃ c t, g.last r = some c ∧ g.began c = some t ∧ s.sessions.limits.offlineTTL ≤ a.now - t)
  /-- The time to live counts from the instant at which the last connection began to close. -/
  offline : ∀ (id : Bytes) r, s.sessions.data[id]? = some r → (s.state r).connected = false →
    ∃ c t, g.last r = some c ∧ g.began c = some t ∧ (s.state r).offlineSince = some t
  /-- While a session is offline, only a connection that resumes it moves this instant. -/
  deadline : ∀ a s' (id : Bytes) r, s.step cfg a = some s' → s.sessions.data[id]? = some r →
    (s.state r).connected = false → s'.sessions.data[id]? = some r →
    ((s'.state r).connected = false ∧ (s'.state r).offlineSince = (s.state r).offlineSince) ∨
    ∃ c i owner, a = .handler c i ∧ (s.conns c).pc = .acquiring ∧ (s'.conns c).active = some owner ∧
      owner.session = r
  /-- The CONNACK of an accepted connection says whether it resumed a session. -/
  present : ∀ c raw ack, (s.conns c).client.accepted.head? = some raw → encode (.connAck ack) [] = .ok () raw →
    ack.returnCode = .accepted → g.resumed c = some ack.sessionPresent

/-- **The lifetime of sessions** in every run. -/
theorem session_lifetime (cfg : Config) (s : Server) (g : Life) (h : Recorded cfg (Life.note cfg) {} s g) :
    s.Lifetime cfg g := by
  have hs := h.reachable.sound
  have hlived : s.Lived g := h.invariant Lived.init fun _ _ _ _ hr hi hstep => hi.step hr.reachable hstep
  have hoffline : ∀ (id : Bytes) r, s.sessions.data[id]? = some r → (s.state r).connected = false →
      ∃ c t, g.last r = some c ∧ g.began c = some t ∧ (s.state r).offlineSince = some t := by
    intro id r hr hoff
    obtain ⟨c, a, hlast, ha, hclosing, hsince⟩ := hlived.offline id r hr hoff
    exact ⟨c, _, hlast, hlived.began c a ha hclosing, hsince⟩
  -- A session that is overdue was left by its last connection.
  have hover : ∀ (id : Bytes) r now, s.sessions.data[id]? = some r → s.sessions.Overdue now r →
      0 < s.sessions.limits.offlineTTL ∧
        ∃ c t, g.last r = some c ∧ g.began c = some t ∧ s.sessions.limits.offlineTTL ≤ now - t := by
    rintro id r now hr ⟨httl, hoff, since, hsince, hle⟩
    obtain ⟨c, t, hlast, hbegan, hsince'⟩ := hoffline id r hr hoff
    cases hsince.symm.trans hsince'
    have hpos := hs.refines.store.valid.session.2.2.1
    exact ⟨by omega, c, since, hlast, hbegan, hle⟩
  refine ⟨fun a s' id r hstep hr hgone => ?_, hoffline, fun a s' id r hstep hr hoff hr' => ?_,
    fun c raw ack hraw henc hcode => ?_⟩
  · cases step_fate hs.refines hstep hr with
    | stays hr' => exact (hgone hr').elim
    | resumed _ _ _ _ _ hr' => exact (hgone hr').elim
    | released _ _ _ _ hr' => exact (hgone hr').elim
    | cleaned hpc hid _ hclean => exact .inl ⟨_, _, rfl, hpc, hid, hclean⟩
    | @closed c i a hpc ha hsession hclean =>
      have hfin : (s.conns c).pc ≠ .finished := by rw [hpc]; nofun
      obtain ⟨hreg, hst, -⟩ := hs.refines.owns hfin ha
      have hid : (s.conns c).client.id = id := hs.refines.store.data_inj hst (hsession ▸ hr)
      exact .inr (.inl ⟨c, i, a, rfl, hpc, hid ▸ hreg, ha, hsession, (hlived.clean c a ha).symm.trans hclean⟩)
    | expired hpc hid hc hov =>
      obtain ⟨httl, hlast⟩ := hover id r _ hr hov
      exact .inr (.inr ⟨httl, hc, .inr ⟨_, _, rfl, hpc, hid⟩, hlast⟩)
    | swept hc hov =>
      obtain ⟨httl, hlast⟩ := hover id r _ hr hov
      exact .inr (.inr ⟨httl, hc, .inl ⟨_, _, rfl⟩, hlast⟩)
  · cases step_fate hs.refines hstep hr with
    | stays _ hcon hsince => exact .inl ⟨hcon.trans hoff, hsince⟩
    | resumed hpc _ _ _ _ _ ha hsession => exact .inr ⟨_, _, _, rfl, hpc, ha, hsession⟩
    | @released c i a hpc ha hsession =>
      have hcon := (hs.refines.owns (by rw [hpc]; nofun) ha).2.2.1
      rw [hsession, hoff] at hcon
      cases hcon
    | cleaned _ _ _ _ hgone | expired _ _ _ _ hgone => exact (hgone hr').elim
    | closed _ _ _ _ hgone | swept _ _ hgone => cases hgone.symm.trans hr'
  · obtain ⟨present, code⟩ := ack
    obtain rfl : code = .accepted := hcode
    obtain rfl := encode_connAck henc
    cases hacc : (s.conns c).client.accepted with
    | nil =>
      rw [hacc] at hraw
      cases hraw
    | cons raw rest =>
      rw [hacc] at hraw
      cases hraw
      exact hlived.greeted c present rest hacc

/-- A connection with a persistent session goes; it began to close at 5. -/
def leaves : List Action :=
  connects 0 99 false ++ [.handler 0 { fail := true }, .handler 0 {}, .handler 0 { now := 5 }, .handler 0 { now := 6 },
    .consumer 0 {}, .handler 0 {}, .writerExit 0, .handler 0 {}, .handler 0 { now := 8 }]

theorem session_lifetime_swept : ∃ s g s', Recorded openConfig (Life.note openConfig) {} s g ∧
    s.sessions.limits.offlineTTL = 10 ∧ s.sessions.data[([99] : Bytes)]? = some 0 ∧ g.began 0 = some 5 ∧
    s.step openConfig (.sweep 15 [[99]]) = some s' ∧ s'.sessions.data[([99] : Bytes)]? = none ∧
    s.Lifetime openConfig g := by
  have hrun : ((Sys.run (Sys.record (step openConfig) (Life.note openConfig))
      ({ broker := { limits := defaultRetainedLimits }, sessions := { limits := { defaultLimits with offlineTTL := 10 } } },
        {}) leaves).map fun x => (x.1.sessions.limits.offlineTTL, x.1.sessions.data[([99] : Bytes)]?, x.2.began 0,
          (x.1.step openConfig (.sweep 15 [[99]])).map fun s' => s'.sessions.data[([99] : Bytes)]?)) =
      some (10, some 0, some 5, some none) := by decide +kernel
  obtain ⟨⟨s, g⟩, hs, he⟩ := Option.map_eq_some_iff.mp hrun
  simp only [Prod.mk.injEq, Option.map_eq_some_iff] at he
  obtain ⟨httl, hr, hbegan, s', hstep, hgone⟩ := he
  have hrec : Recorded openConfig (Life.note openConfig) {} s g :=
    ⟨_, _, defaultRetainedLimits, { defaultLimits with offlineTTL := 10 }, leaves, rfl, rfl, hs⟩
  exact ⟨s, g, s', hrec, httl, hr, hbegan, hstep, hgone, session_lifetime openConfig s g hrec⟩

end Server

end OrbMQ
