import OrbMQ.Server.Authorization
import OrbMQ.Server.Lifetime
import OrbMQ.Server.Response

/-!
# Identities do not reach each other's sessions

The owner of a session is fixed when it is created. A connection is refused before it has done anything to
the others: by `authenticateConnect`, or by `acquireConnection`, whose loop looks at the owner under the lock
before everything else. `Conn.Barred` is where a refused connection is from then on. A contender that waits for
a session again finds one of its own identity, since a client ID belongs to one identity.
-/

namespace OrbMQ

open Go

/-- The policy is one that `New` accepts, if there is one. -/
def Config.Accepted (cfg : Config) : Prop :=
  ∀ l, cfg.auth = some l → ∃ users, Local.new cfg.crypto users = .ok l

/-- A refused connection: it has no session, and goes to its end. -/
def Conn.Barred (k : Conn) : Prop :=
  k.active = none ∧ ((∃ code, k.pc = .rejecting code) ∨ k.pc.phase = .refusing ∨ k.pc.phase = .closing)

/-- What a connection has not been given cannot be taken from it. -/
theorem Conn.Peer.active_none {k k' : Conn} (h : k.Peer k') (ha : k.active = none) : k'.active = none := by
  cases h with
  | beginClosing now => simp [ha]
  | _ => exact ha

theorem Conn.Barred.peer {k k' : Conn} (h : k.Barred) (hp : k.Peer k') : k'.Barred :=
  ⟨hp.active_none h.1, hp.pc ▸ h.2⟩

theorem Conn.Barred.outside {k : Conn} (h : k.Barred) : k.pc.entering = false := by
  obtain ⟨-, ⟨code, e⟩ | e | e⟩ := h
  · rw [e]
    rfl
  all_goals
    cases hpc : k.pc <;> first | rfl | (rw [hpc] at e; cases e)

/-- A connection with a permission to use `id`. -/
def OwnerOf (cfg : Config) (identity id : Bytes) : Prop :=
  (cfg.auth = none → identity = []) ∧ ∀ l, cfg.auth = some l → l.canUseClientID identity id = true

theorem OwnerOf.unique {cfg : Config} (hcfg : cfg.Accepted) {identity identity' id : Bytes}
    (h : OwnerOf cfg identity id) (h' : OwnerOf cfg identity' id) : identity = identity' := by
  cases ha : cfg.auth with
  | none => rw [h.1 ha, h'.1 ha]
  | some l =>
    obtain ⟨users, hnew⟩ := hcfg l ha
    exact Local.clientID_unique hnew (h.2 l ha) (h'.2 l ha)

namespace Server

variable {cfg : Config} {s s' : Server} {c : Nat} {i : Input} {e : Effect} {f : Conn → Conn}

/-- Nothing but the connection `c` and the counters of refusals has changed. -/
structure Untouched (c : Nat) (s s' : Server) : Prop where
  sessions : s'.sessions = s.sessions
  broker : s'.broker = s.broker
  clients : s'.clients = s.clients
  others : ∀ c' ≠ c, s'.conns c' = s.conns c'

theorem Untouched.setConn (s : Server) (c : Nat) (f : Conn → Conn) : Untouched c s (s.setConn c f) :=
  ⟨rfl, rfl, rfl, fun c' hc => by rw [conns_setConn, if_neg hc]⟩

/-! ## Connections without a session -/

section Outside

variable (h : s.Sound cfg) (ha : (s.conns c).active = none)

include h ha

/-- A handler without a session that is not about to take one. -/
theorem Turn.outside (hpc : (s.conns c).pc.entering = false) (ht : Turn cfg s c i e f) :
    e = .idle ∨ ∃ a b, e = .count a b := by
  have hserves : ∀ {pc}, (s.conns c).pc = pc → pc.serves = true → False := fun hpc' hs =>
    (h.conns c).serves (hpc' ▸ hs) ha
  have hentering : ∀ {pc}, (s.conns c).pc = pc → pc.entering = true → False := fun hpc' hs => by
    rw [hpc', hs] at hpc
    cases hpc
  cases ht with
  | takeOver hpc' | unopened hpc' | acquire hpc' | closePrevious hpc' => exact (hentering hpc' rfl).elim
  | begin hpc' | route hpc' | unroute hpc' | retain hpc' | enqueue hpc' | close hpc' | admission hpc' =>
    exact (hserves hpc' rfl).elim
  | calls _ ha' =>
    rw [ha] at ha'
    cases ha'
  | release _ _ ha' =>
    rw [ha] at ha'
    cases ha'
  | reject | denied => exact .inr ⟨_, _, rfl⟩
  | _ => exact .inl rfl

theorem untouched_of_outside (hpc : (s.conns c).pc.entering = false) {a : Action} (hconn : a.conn = some c)
    (hstep : s.step cfg a = some s') : Untouched c s s' := by
  cases step_moves h.refines hstep with
  | handler hc ht =>
    cases hconn
    obtain rfl | ⟨_, _, rfl⟩ := ht.outside h ha hpc
    · exact .setConn s c _
    · exact ⟨rfl, rfl, rfl, fun c' hc' => by rw [conns_setConn, if_neg hc']; rfl⟩
  | consumer hc ht =>
    cases hconn
    exact absurd ha ((h.conns c).consumer ht.started)
  | write | writerExit =>
    cases hconn
    exact .setConn s c _
  | accept | sweep => cases hconn

end Outside

/-! ## Refused connections -/

/-- A refused connection stays refused. -/
theorem barred_own (h : s.Sound cfg) (hb : (s.conns c).Barred) (ht : Turn cfg s c i e f) :
    (f ((e.apply c s).conns c)).Barred := by
  have ha := hb.1
  have hout : ((e.apply c s).conns c) = s.conns c := by
    obtain rfl | ⟨_, _, rfl⟩ := ht.outside h ha hb.outside <;> rfl
  rw [hout]
  have hno : ∀ {pc}, (s.conns c).pc = pc → (∀ code, pc ≠ .rejecting code) → pc.phase ≠ .refusing →
      pc.phase ≠ .closing → False := by
    rintro pc hpc h1 h2 h3
    rcases hpc ▸ hb.2 with ⟨code, e⟩ | e | e
    · exact h1 code e
    · exact h2 e
    · exact h3 e
  cases ht with
  | @goes pc pc' hpc hg =>
    refine ⟨ha, .inr ?_⟩
    rcases hpc ▸ hb.2 with ⟨code, rfl⟩ | e | e
    · cases hg
    · exact hg.phase.imp (fun he => he.trans e) fun he => he
    · exact .inr (hg.phase.elim (fun he => he.trans e) fun he => he)
  | @reject code =>
    show ((s.conns c).sendPacket (.connAck ⟨false, code⟩) .refusal).Barred
    obtain ⟨client, pc, he, -, ⟨rfl, -⟩ | ⟨channel, raw, rfl, -⟩⟩ :=
      (s.conns c).sendPacket_sends (.connAck ⟨false, code⟩) .refusal <;> rw [he]
    · exact ⟨ha, .inr (.inr rfl)⟩
    · exact ⟨ha, .inr (.inl rfl)⟩
  | beginClosing => exact ⟨by simp [ha], .inr (.inr rfl)⟩
  | closeClient => exact ⟨ha, .inr (.inr rfl)⟩
  | denied hpc hcase =>
    obtain ⟨p, rfl, -⟩ | ⟨p, codes, sub, rest, rfl, -⟩ := hcase
    · exact (hno hpc nofun nofun nofun).elim
    · exact (hno hpc nofun nofun nofun).elim
  | sends hpc hsend => cases hsend <;> exact (hno hpc nofun nofun nofun).elim
  | calls _ ha' | release _ _ ha' =>
    rw [ha] at ha'
    cases ha'
  | handshake hpc | authenticated hpc | takeOver hpc | unopened hpc | acquire hpc | closePrevious hpc | ready hpc
  | begin hpc | serve hpc | route hpc | unroute hpc | offer hpc | retain hpc | enqueue hpc | close hpc
  | admission hpc => exact (hno hpc nofun nofun nofun).elim

theorem barred_step (h : s.Sound cfg) (hb : (s.conns c).Barred) {a : Action} (hstep : s.step cfg a = some s') :
    (s'.conns c).Barred := by
  have hm := step_conn h.refines hstep c
  generalize s'.conns c = k' at hm
  cases hm with
  | own ht => exact barred_own h hb ht
  | consumer ht => exact absurd hb.1 ((h.conns c).consumer ht.started)
  | write | writerExit => exact hb
  | @effect c' i e f => exact hb.peer (e.peer c' s c)
  | same => exact hb

/-- The handler that `authenticateConnect` refuses. -/
theorem barred_of_refused (h : s.Sound cfg) (hpc : (s.conns c).pc = .authenticating)
    (hcode : (authenticateConnect cfg i (s.conns c).connect).2 ≠ .accepted)
    (hstep : s.step cfg (.handler c i) = some s') : (s'.conns c).Barred := by
  have ha : (s.conns c).active = none := (h.refines.conns c).early (by rw [hpc]; rfl)
  have hs : s.authenticate cfg c i = s' := by
    simp only [step, handlerStep, hpc] at hstep
    split at hstep
    · exact Option.some.inj hstep
    · cases hstep
  unfold authenticate at hs
  split at hs
  · rename_i hres
    rw [hres] at hcode
    exact (hcode rfl).elim
  · subst hs
    rw [goto, conns_setConn, if_pos rfl]
    exact ⟨ha, .inl ⟨_, rfl⟩⟩

/-- The owner is looked at before everything else. -/
theorem untouched_of_foreign (h : s.Sound cfg) (hpc : (s.conns c).pc = .acquiring) {r : Nat}
    (hr : s.sessions.data[(s.conns c).client.id]? = some r) (howner : (s.state r).owner ≠ (s.conns c).identity)
    (hstep : s.step cfg (.handler c i) = some s') : Untouched c s s' ∧ (s'.conns c).Barred := by
  have ha : (s.conns c).active = none := (h.refines.conns c).early (by rw [hpc]; rfl)
  have hs : ∃ pc, s' = s.goto c pc ∧ ((∃ code, pc = .rejecting code) ∨ pc.phase = .closing) := by
    simp only [step, handlerStep, hpc] at hstep
    split at hstep
    · split at hstep
      · have he := (Option.some.inj hstep).symm
        unfold acquireConnection at he
        dsimp only at he
        split at he
        · exact ⟨_, he, .inr rfl⟩
        · rw [if_pos (by rw [Store.get, hr]; simpa using howner)] at he
          exact ⟨_, he, .inl ⟨_, rfl⟩⟩
      · cases hstep
    · cases hstep
  obtain ⟨pc, rfl, hb⟩ := hs
  refine ⟨.setConn s c _, ?_⟩
  rw [goto, conns_setConn, if_pos rfl]
  exact ⟨ha, hb.imp_right .inr⟩

/-! ## Owners -/

/-- Every stored session belongs to somebody who may use its client ID. -/
theorem Reachable.owners (h : Reachable cfg s) {id : Bytes} {r : Nat} (hr : s.sessions.data[id]? = some r) :
    OwnerOf cfg (s.state r).owner id := by
  obtain ⟨g, hg⟩ := h.recorded (fun _ _ g => g) ()
  refine hg.invariant (I := fun s _ => ∀ (id : Bytes) r, s.sessions.data[id]? = some r →
    OwnerOf cfg (s.state r).owner id) (fun _ _ id r hr => by simp at hr) ?_ id r hr
  intro s _ a s' hrec hi hstep id r hr
  have hs := hrec.reachable.sound
  obtain hold | ⟨c, i, a', rfl, -, hpc, hid, -, -, howner⟩ := step_stored hs hstep hr
  · rw [(step_later hs.refines hstep).owner r (hs.refines.store.stored id r hold).1]
    exact hi id r hold
  · have hent := (hs.conns c).entitled (.inr (by rw [hpc]; rfl))
    rw [howner, ← hid]
    exact ⟨hent.anonymous, hent.clientID⟩

/-- Identities are kept apart in this state, and by every step from it. -/
structure Isolated (cfg : Config) (s : Server) : Prop where
  /-- No client ID is usable by two identities. -/
  exclusive : ∀ l, cfg.auth = some l → ∀ identity identity' id, l.canUseClientID identity id = true →
    l.canUseClientID identity' id = true → identity = identity'
  /-- A connection without a session that is not inside `acquireConnection` touches nothing else. -/
  outside : ∀ c a s', (s.conns c).active = none → (s.conns c).pc.entering = false → a.conn = some c →
    s.step cfg a = some s' → Untouched c s s'
  /-- It is so before it has been authenticated. -/
  unauthenticated : ∀ c, (s.conns c).pc = .handshake ∨ (s.conns c).pc = .authenticating →
    (s.conns c).active = none ∧ (s.conns c).pc.entering = false
  /-- A connection that `authenticateConnect` refuses is barred. -/
  refused : ∀ c i s', (s.conns c).pc = .authenticating →
    (authenticateConnect cfg i (s.conns c).connect).2 ≠ .accepted → s.step cfg (.handler c i) = some s' →
    (s'.conns c).Barred
  /-- So is one that finds a session of another identity; it touches nothing else. -/
  foreign : ∀ c i s' r, (s.conns c).pc = .acquiring → s.sessions.data[(s.conns c).client.id]? = some r →
    (s.state r).owner ≠ (s.conns c).identity → s.step cfg (.handler c i) = some s' →
    Untouched c s s' ∧ (s'.conns c).Barred
  /-- A barred connection is outside, and stays barred whoever takes a step. -/
  barred : ∀ c, (s.conns c).Barred → (s.conns c).pc.entering = false ∧
    ∀ a s', s.step cfg a = some s' → (s'.conns c).Barred
  /-- Inside `acquireConnection`, in its wait loop too, the stored session is one of the same identity. -/
  contender : ∀ c r, (s.conns c).pc.entering = true → s.sessions.data[(s.conns c).client.id]? = some r →
    (s.state r).owner = (s.conns c).identity
  /-- Sessions keep their owners. -/
  owner : ∀ a s' r, s.step cfg a = some s' → r < s.sessions.allocated → (s'.state r).owner = (s.state r).owner

/-- **Identity isolation** in every reachable state, without a policy or with one that `New` accepts. -/
theorem identity_isolation (cfg : Config) (hcfg : cfg.Accepted) (s : Server) (h : Reachable cfg s) :
    s.Isolated cfg := by
  have hs := h.sound
  refine ⟨fun l hl identity identity' id hi hi' => ?_, fun c a s' ha hpc => untouched_of_outside hs ha hpc,
    fun c hpc => ?_, fun c i s' => barred_of_refused hs, fun c i s' r hpc hr => untouched_of_foreign hs hpc hr,
    fun c hb => ⟨hb.outside, fun a s' => barred_step hs hb⟩, fun c r hpc hr => ?_,
    fun a s' r hstep hr => (step_later hs.refines hstep).owner r hr⟩
  · obtain ⟨users, hnew⟩ := hcfg l hl
    exact Local.clientID_unique hnew hi hi'
  · refine ⟨(hs.refines.conns c).early ?_, ?_⟩ <;> obtain e | e := hpc <;> rw [e] <;> rfl
  · have hent := (hs.conns c).entitled (.inr hpc)
    exact (h.owners hr).unique hcfg ⟨hent.anonymous, hent.clientID⟩

/-- Somebody unknown tries the client ID of a user who is connected. -/
def strangerConnects : List Action :=
  [.accept, .handler 0 { raw := [0x10, 19, 0, 4, 77, 81, 84, 84, 4, 0xC2, 0, 60, 0, 1, 99, 0, 1, 117, 0, 1, 112] },
    .handler 0 {}, .handler 0 {}, .accept,
    .handler 1 { raw := [0x10, 19, 0, 4, 77, 81, 84, 84, 4, 0xC2, 0, 60, 0, 1, 99, 0, 1, 118, 0, 1, 112] },
    .handler 1 {}]

theorem identity_isolation_stranger : ∃ s, Reachable policyConfig s ∧ s.clients[([99] : Bytes)]? = some 0 ∧
    (s.conns 1).Barred ∧ s.Isolated policyConfig := by
  have hrun : ((Sys.run (step policyConfig) fresh strangerConnects).map fun s => (s.clients[([99] : Bytes)]?,
      (s.conns 1).active, match (s.conns 1).pc with | .rejecting code => some code | _ => none)) =
      some (some 0, none, some .badCredentials) := by decide +kernel
  obtain ⟨s, hs, he⟩ := Option.map_eq_some_iff.mp hrun
  obtain ⟨hc, he⟩ := Prod.mk.inj he
  obtain ⟨ha, hpc⟩ := Prod.mk.inj he
  refine ⟨s, reachable_fresh hs, hc, ⟨ha, .inl ?_⟩, identity_isolation policyConfig ?_ s (reachable_fresh hs)⟩
  · split at hpc
    · exact ⟨_, ‹_›⟩
    · cases hpc
  · obtain ⟨l, hnew, hauth⟩ := policyConfig_auth
    intro l' hl'
    cases hauth.symm.trans hl'
    exact ⟨oneUser, hnew⟩

end Server

end OrbMQ
