import OrbMQ.Protocol.Decoder
import OrbMQ.Server.Connections

/-!
# The life of a server (`Start` in `internal/server/server.go`)

`Start` accepts connections until its context ends or `Accept` fails. Then it cancels the context of its own, and waits:
for the function that `AfterFunc` runs, which closes the listener and all registered connections, for the expiry of
sessions, and for the handlers. The caller can end the context at any time, also while a connection comes in.

* `Startup.step`: the goroutines of `Start`, of `AfterFunc` and of the handlers, one section at a time. The connection
  group is the one of `OrbMQ/Server/Connections.lean`.
* Two things are assumed of a handler, which is a single section here. It has closed its connection when it returns:
  `handleConn` does so on every path, itself as long as there is no client, and with `cli.Close` afterwards. And it
  returns once its connection is closed: that is what `OrbMQ/Server/Shutdown.lean` shows of its sections, after the end
  of the context.
* `Startup.Inv`: once `closeAll` has taken its list, nobody is registered any more; so every connection is in the list,
  or closed.
* `Startup.start_returns`: when `Start` returns, nothing is left behind, and it returns an error only if `Accept` has
  failed. `Startup.start_stops`: after the context has ended, it does return.
-/

namespace OrbMQ

open Go

/-! ## The source -/

/-- What `Start` reads of the options. -/
structure StartOptions where
  auth : Bool
  tlsConfig : Bool
  connectionLimits : ConnectionLimits
  writeTimeout : Int
  maxPacketSize : Int
  handshakeTimeout : Int

/-- The checks of `Start`. -/
def StartOptions.check (o : StartOptions) : Except Err Unit := do
  if o.auth ≠ o.tlsConfig then throw (.new "security requires both authentication and tls")
  o.connectionLimits.validate
  if o.writeTimeout ≤ 0 then throw (.new "write timeout must be positive")
  if o.maxPacketSize ≤ 0 ∨ o.maxPacketSize > OrbMQ.maxPacketSize then throw (.new "invalid maximum packet size")
  if o.handshakeTimeout ≤ 0 then throw (.new "handshake timeout must be positive")

/-- Where `Start` is: in `acceptConnections`, and then in its deferred function, with its result. -/
inductive StartPc where
  | accepting
  | starting
  | leaving (res : Except Err Unit)
  | joiningShutdown (res : Except Err Unit)
  | joiningExpiry (res : Except Err Unit)
  | waiting (res : Except Err Unit)
  | returned (res : Except Err Unit)

/-- Where the function of `AfterFunc` is. `closeAll` takes the list of the connections under the lock, and closes them
one by one. -/
inductive ShutdownPc where
  | idle
  | closingListener
  | closingAll
  | closing (conns : List Nat)
  | done

/-- A call of `Start` that listens. `closed` are the connections that `Start`, `closeAll` or their handlers have closed;
a connection that `Accept` has returned has the number `listener.accepted` until it is registered or closed. -/
structure Startup where
  listener : Listener := {}
  cancelled : Bool := false
  runDone : Bool := false
  listening : Bool := true
  closed : Nat → Bool := fun _ => false
  expiryDone : Bool := false
  pc : StartPc := .accepting
  shutdown : ShutdownPc := .idle

namespace Startup

/-- `Start` up to its loop. There is no expiry of sessions without an offline TTL. -/
def start (o : StartOptions) (offlineTTL : Int) (listen : Except Err Unit) : Except Err Startup := do
  o.check
  listen
  return { expiryDone := offlineTTL = 0 }

inductive Action where
  /-- The caller ends the context of `Start`. -/
  | cancel
  /-- The context that `Start` has derived from it ends. -/
  | propagate
  | accept
  | acceptError (text : String) (temporary : Bool)
  | main
  | shutdown (order : List Nat)
  | expiry
  | completeHandshake (conn : Nat)
  | exit (conn : Nat)
  | done (conn : Nat)

/-- `Accept` has returned an error. -/
def acceptFails (text : String) (temporary : Bool) (s : Startup) : Startup :=
  if s.cancelled then { s with pc := .leaving (.ok ()) }
  else if temporary then s
  else { s with pc := .leaving (.error (.new ("accept connection: " ++ text))) }

/-- The next section of `Start`, except `Accept`. -/
def main (limits : ConnectionLimits) (s : Startup) : Option Startup :=
  match s.pc with
  | .accepting => none
  | .starting =>
    let conn := s.listener.accepted
    let res := s.listener.group.start s.cancelled conn limits
    some { s with
      listener := { group := res.2, accepted := conn + 1 }
      closed := if ConnectionGroup.outcome conn res = .registered then s.closed else Function.update s.closed conn true
      pc := if res.1 then .accepting else .leaving (.ok ()) }
  | .leaving res => some { s with runDone := true, pc := .joiningShutdown res }
  | .joiningShutdown res => match s.shutdown with
    | .done => some { s with pc := .joiningExpiry res }
    | _ => none
  | .joiningExpiry res => if s.expiryDone then some { s with pc := .waiting res } else none
  | .waiting res => if s.listener.group.wait then some { s with pc := .returned res } else none
  | .returned _ => none

/-- The next section of the function of `AfterFunc`. -/
def shutdownStep (order : List Nat) (s : Startup) : Option Startup :=
  match s.shutdown with
  | .idle => if s.runDone then some { s with shutdown := .closingListener } else none
  | .closingListener => some { s with listening := false, shutdown := .closingAll }
  | .closingAll =>
    if Map.Ranges s.listener.group.connections order then some { s with shutdown := .closing order } else none
  | .closing (conn :: conns) => some { s with closed := Function.update s.closed conn true, shutdown := .closing conns }
  | .closing [] => some { s with shutdown := .done }
  | .done => none

/-- Assumed: a handler has closed its connection when it returns. -/
def step (limits : ConnectionLimits) (s : Startup) : Action → Option Startup
  | .cancel => some { s with cancelled := true }
  | .propagate => if s.cancelled ∧ ¬ s.runDone then some { s with runDone := true } else none
  | .accept => match s.pc with
    | .accepting => if s.listening then some { s with pc := .starting } else none
    | _ => none
  | .acceptError text temporary => match s.pc with
    | .accepting => some (s.acceptFails text temporary)
    | _ => none
  | .main => s.main limits
  | .shutdown order => s.shutdownStep order
  | .expiry => if s.runDone ∧ ¬ s.expiryDone then some { s with expiryDone := true } else none
  | .completeHandshake conn => (s.listener.step limits (.completeHandshake conn)).map fun listener => { s with listener }
  | .exit conn => (s.listener.step limits (.exit conn)).map fun listener =>
    { s with listener, closed := Function.update s.closed conn true }
  | .done conn => (s.listener.step limits (.done conn)).map fun listener => { s with listener }

/-! ## What a step can do -/

/-- A step, by what it does. -/
inductive Moves (limits : ConnectionLimits) (s : Startup) : Action → Startup → Prop
  | cancel : Moves limits s .cancel { s with cancelled := true }
  | propagate : s.cancelled = true → s.runDone = false → Moves limits s .propagate { s with runDone := true }
  | accept : s.pc = .accepting → s.listening = true → Moves limits s .accept { s with pc := .starting }
  | cancelledAccept {text : String} {temporary : Bool} : s.pc = .accepting → s.cancelled = true →
      Moves limits s (.acceptError text temporary) { s with pc := .leaving (.ok ()) }
  | temporary {text : String} : s.pc = .accepting → s.cancelled = false → Moves limits s (.acceptError text true) s
  | fail {text : String} : s.pc = .accepting → s.cancelled = false → Moves limits s (.acceptError text false)
      { s with pc := .leaving (.error (.new ("accept connection: " ++ text))) }
  | stopped : s.pc = .starting → s.cancelled = true → Moves limits s .main { s with
      listener := ⟨s.listener.group, s.listener.accepted + 1⟩
      closed := Function.update s.closed s.listener.accepted true
      pc := .leaving (.ok ()) }
  | rejected {g : ConnectionGroup} : s.pc = .starting → s.cancelled = false →
      g.connections = s.listener.group.connections → g.goroutines = s.listener.group.goroutines →
      g.handlers = s.listener.group.handlers → Moves limits s .main { s with
        listener := ⟨g, s.listener.accepted + 1⟩
        closed := Function.update s.closed s.listener.accepted true
        pc := .accepting }
  | registered : s.pc = .starting → s.cancelled = false → Moves limits s .main { s with
      listener := ⟨s.listener.group.register s.listener.accepted, s.listener.accepted + 1⟩
      pc := .accepting }
  | leave {res : Except Err Unit} : s.pc = .leaving res →
      Moves limits s .main { s with runDone := true, pc := .joiningShutdown res }
  | joinShutdown {res : Except Err Unit} : s.pc = .joiningShutdown res → s.shutdown = .done →
      Moves limits s .main { s with pc := .joiningExpiry res }
  | joinExpiry {res : Except Err Unit} : s.pc = .joiningExpiry res → s.expiryDone = true →
      Moves limits s .main { s with pc := .waiting res }
  | wait {res : Except Err Unit} : s.pc = .waiting res → s.listener.group.handlers = 0 →
      Moves limits s .main { s with pc := .returned res }
  | afterFunc {order : List Nat} : s.shutdown = .idle → s.runDone = true →
      Moves limits s (.shutdown order) { s with shutdown := .closingListener }
  | closeListener {order : List Nat} : s.shutdown = .closingListener →
      Moves limits s (.shutdown order) { s with listening := false, shutdown := .closingAll }
  | list {order : List Nat} : s.shutdown = .closingAll → Map.Ranges s.listener.group.connections order →
      Moves limits s (.shutdown order) { s with shutdown := .closing order }
  | close {order conns : List Nat} {conn : Nat} : s.shutdown = .closing (conn :: conns) → Moves limits s (.shutdown order)
      { s with closed := Function.update s.closed conn true, shutdown := .closing conns }
  | closed {order : List Nat} : s.shutdown = .closing [] → Moves limits s (.shutdown order) { s with shutdown := .done }
  | expire : s.runDone = true → s.expiryDone = false → Moves limits s .expiry { s with expiryDone := true }
  | completeHandshake (conn : Nat) : Moves limits s (.completeHandshake conn)
      { s with listener := { s.listener with group := s.listener.group.completeHandshake conn } }
  | exit {conn : Nat} : s.listener.group.goroutines conn = .handling → Moves limits s (.exit conn) { s with
      listener := { s.listener with group := s.listener.group.exit conn }
      closed := Function.update s.closed conn true }
  | done {conn : Nat} : s.listener.group.goroutines conn = .exited → Moves limits s (.done conn)
      { s with listener := { s.listener with group := s.listener.group.done conn } }

variable {limits : ConnectionLimits} {s s' : Startup} {a : Action}

/-- A connection is refused at the end of the context, or registered, or rejected. -/
theorem start_cases (g : ConnectionGroup) (cancelled : Bool) (conn : Nat) (limits : ConnectionLimits) :
    (cancelled = true ∧ g.start cancelled conn limits = (false, g)) ∨
    (cancelled = false ∧ g.start cancelled conn limits = (true, g.register conn)) ∨
    (cancelled = false ∧ ∃ g', g.start cancelled conn limits = (true, g') ∧ g'.connections = g.connections ∧
      g'.goroutines = g.goroutines ∧ g'.handlers = g.handlers) := by
  cases cancelled with
  | true => exact .inl ⟨rfl, rfl⟩
  | false =>
    right
    simp only [ConnectionGroup.start, Bool.false_eq_true, if_false, true_and]
    split
    · split <;> exact .inr ⟨_, rfl, rfl, rfl, rfl⟩
    · exact .inl rfl

theorem starting_moves (hpc : s.pc = .starting) (hs : s.main limits = some s')
    (hnext : s.listener.group.connections[s.listener.accepted]? = none) : Moves limits s .main s' := by
  simp only [main, hpc, Option.some.injEq] at hs
  subst hs
  obtain ⟨hc, hst⟩ | ⟨hc, hst⟩ | ⟨hc, g, hst, hconns, hgo, hhandlers⟩ :=
    start_cases s.listener.group s.cancelled s.listener.accepted limits <;> rw [hst]
  · exact .stopped hpc hc
  · simpa [ConnectionGroup.outcome, ConnectionGroup.register] using Moves.registered hpc hc
  · simpa [ConnectionGroup.outcome, hconns, hnext] using Moves.rejected hpc hc hconns hgo hhandlers

/-- **What the goroutines can do.** -/
theorem step_moves (hl : s.listener.Inv) (hs : s.step limits a = some s') : Moves limits s a s' := by
  cases a with
  | cancel =>
    cases hs
    exact .cancel
  | propagate =>
    obtain ⟨⟨hc, hr⟩, hs⟩ := Option.ite_none_right_eq_some.mp hs
    cases hs
    exact .propagate hc (by simpa using hr)
  | accept =>
    simp only [step] at hs
    split at hs
    · obtain ⟨hlisten, hs⟩ := Option.ite_none_right_eq_some.mp hs
      cases hs
      exact .accept ‹_› hlisten
    · cases hs
  | acceptError text temporary =>
    simp only [step] at hs
    split at hs <;> cases hs
    rename_i hpc
    unfold acceptFails
    split
    · exact .cancelledAccept hpc ‹_›
    · rename_i hc
      have hc : s.cancelled = false := by simpa using hc
      cases temporary with
      | true => exact .temporary hpc hc
      | false => exact .fail hpc hc
  | main =>
    cases hpc : s.pc with
    | accepting => simp [step, main, hpc] at hs
    | starting => exact starting_moves hpc hs hl.next
    | leaving res =>
      simp only [step, main, hpc, Option.some.injEq] at hs
      exact hs ▸ .leave hpc
    | joiningShutdown res =>
      simp only [step, main, hpc] at hs
      split at hs <;> cases hs
      exact .joinShutdown hpc ‹_›
    | joiningExpiry res =>
      simp only [step, main, hpc] at hs
      obtain ⟨he, hs⟩ := Option.ite_none_right_eq_some.mp hs
      cases hs
      exact .joinExpiry hpc he
    | waiting res =>
      simp only [step, main, hpc] at hs
      obtain ⟨hw, hs⟩ := Option.ite_none_right_eq_some.mp hs
      cases hs
      exact .wait hpc (by simpa [ConnectionGroup.wait] using hw)
    | returned res => simp [step, main, hpc] at hs
  | shutdown order =>
    cases hsd : s.shutdown with
    | idle =>
      simp only [step, shutdownStep, hsd] at hs
      obtain ⟨hr, hs⟩ := Option.ite_none_right_eq_some.mp hs
      cases hs
      exact .afterFunc hsd hr
    | closingListener =>
      simp only [step, shutdownStep, hsd, Option.some.injEq] at hs
      exact hs ▸ .closeListener hsd
    | closingAll =>
      simp only [step, shutdownStep, hsd] at hs
      obtain ⟨hr, hs⟩ := Option.ite_none_right_eq_some.mp hs
      cases hs
      exact .list hsd hr
    | closing conns =>
      cases conns <;> simp only [step, shutdownStep, hsd, Option.some.injEq] at hs
      · exact hs ▸ .closed hsd
      · exact hs ▸ .close hsd
    | done => simp [step, shutdownStep, hsd] at hs
  | expiry =>
    obtain ⟨⟨hr, he⟩, hs⟩ := Option.ite_none_right_eq_some.mp hs
    cases hs
    exact .expire hr (by simpa using he)
  | completeHandshake conn =>
    cases hs
    exact .completeHandshake conn
  | exit conn =>
    obtain ⟨l, hl, rfl⟩ := Option.map_eq_some_iff.mp hs
    obtain ⟨hrun, hl⟩ := Option.ite_none_right_eq_some.mp hl
    cases hl
    exact .exit hrun
  | done conn =>
    obtain ⟨l, hl, rfl⟩ := Option.map_eq_some_iff.mp hs
    obtain ⟨hexit, hl⟩ := Option.ite_none_right_eq_some.mp hl
    cases hl
    exact .done hexit

end Startup

/-! ## What holds in every state -/

/-- How far `Start` has come. -/
def StartPc.stage : StartPc → Nat
  | .accepting => 0
  | .starting => 1
  | .leaving _ => 2
  | .joiningShutdown _ => 3
  | .joiningExpiry _ => 4
  | .waiting _ => 5
  | .returned _ => 6

def StartPc.result : StartPc → Option (Except Err Unit)
  | .accepting | .starting => none
  | .leaving res | .joiningShutdown res | .joiningExpiry res | .waiting res | .returned res => some res

/-- Who is registered is closed, or will be. -/
def ShutdownPc.Covers (registered : Nat → Prop) (closed : Nat → Bool) : ShutdownPc → Prop
  | .closing conns => ∀ c, registered c → closed c = true ∨ c ∈ conns
  | .done => ∀ c, registered c → closed c = true
  | _ => True

theorem ShutdownPc.Covers.mono {registered registered' : Nat → Prop} {closed closed' : Nat → Bool} {pc : ShutdownPc}
    (h : pc.Covers registered closed) (hr : ∀ c, registered' c → registered c)
    (hc : ∀ c, closed c = true → closed' c = true) : pc.Covers registered' closed' := by
  cases pc with
  | closing conns => exact fun c hreg => (h c (hr c hreg)).imp_left (hc c)
  | done => exact fun c hreg => hc c (h c (hr c hreg))
  | _ => trivial

namespace Startup

variable {limits : ConnectionLimits} {s s' : Startup} {a : Action}

def Registered (s : Startup) (c : Nat) : Prop := ∃ b, s.listener.group.connections[c]? = some b

structure Inv (s : Startup) : Prop where
  listener : s.listener.Inv
  /-- The context of `Start` itself ends first, unless `Start` leaves. -/
  context : s.runDone = true → s.cancelled = true ∨ 3 ≤ s.pc.stage
  result : s.pc.result = some (.ok ()) → s.cancelled = true
  begun : s.shutdown ≠ .idle → s.runDone = true
  listening : s.shutdown = .idle ∨ s.shutdown = .closingListener ∨ s.listening = false
  covers : s.shutdown.Covers s.Registered s.closed
  unregistered : ∀ c < s.listener.accepted, s.Registered c ∨ s.closed c = true
  left : 3 ≤ s.pc.stage → s.runDone = true
  joined : 4 ≤ s.pc.stage → s.shutdown = .done
  expired : 5 ≤ s.pc.stage → s.expiryDone = true
  waited : 6 ≤ s.pc.stage → s.listener.group.handlers = 0

theorem closed_update {closed : Nat → Bool} (conn : Nat) {c : Nat} (h : closed c = true) :
    Function.update closed conn true c = true := by
  rw [Function.update_apply]
  split
  · rfl
  · exact h

/-- `Start` goes on. -/
theorem Inv.goto (h : s.Inv) {pc : StartPc} (context : s.pc.stage ≤ pc.stage ∨ s.cancelled = true ∨ s.runDone = false)
    (result : pc.result = some (.ok ()) → s.cancelled = true) (left : 3 ≤ pc.stage → s.runDone = true)
    (joined : 4 ≤ pc.stage → s.shutdown = .done) (expired : 5 ≤ pc.stage → s.expiryDone = true)
    (waited : 6 ≤ pc.stage → s.listener.group.handlers = 0) : Inv { s with pc } := by
  refine { h with context := fun hr => ?_, result, left, joined, expired, waited }
  obtain hle | hc | hn := context
  · exact (h.context hr).imp_right fun hst => hst.trans hle
  · exact .inl hc
  · rw [hn] at hr
    cases hr

/-- Before the context of `Start` ends, the function of `AfterFunc` does not run while connections come in. -/
theorem Inv.idle (h : s.Inv) (hst : s.pc.stage < 3) (hc : s.cancelled = false) : s.runDone = false ∧ s.shutdown = .idle := by
  have hr : s.runDone = false := by
    by_contra hr
    obtain e | e := h.context (by simpa using hr)
    · rw [hc] at e
      cases e
    · omega
  refine ⟨hr, ?_⟩
  by_contra hs
  rw [h.begun hs] at hr
  cases hr

/-- A connection that is not registered is closed. -/
theorem Inv.pass (h : s.Inv) {g : ConnectionGroup} (hconns : g.connections = s.listener.group.connections)
    (hgo : g.goroutines = s.listener.group.goroutines) (hhandlers : g.handlers = s.listener.group.handlers) :
    Inv { s with
      listener := ⟨g, s.listener.accepted + 1⟩
      closed := Function.update s.closed s.listener.accepted true } := by
  have hreg : ∀ c, (∃ b, g.connections[c]? = some b) ↔ s.Registered c := fun c => by rw [hconns, Registered]
  refine { h with
    listener := h.listener.pass hconns hgo hhandlers
    covers := h.covers.mono (fun c hc => (hreg c).mp hc) fun c => closed_update _
    unregistered := fun c hc => ?_
    waited := fun hst => hhandlers.trans (h.waited hst) }
  obtain hlt | rfl := Nat.lt_succ_iff_lt_or_eq.mp hc
  · exact (h.unregistered c hlt).imp (hreg c).mpr (closed_update _)
  · exact .inr (Function.update_self ..)

theorem Inv.register (h : s.Inv) (hst : s.pc.stage < 3) (hc : s.cancelled = false) : Inv { s with
    listener := ⟨s.listener.group.register s.listener.accepted, s.listener.accepted + 1⟩ } := by
  obtain ⟨-, hidle⟩ := h.idle hst hc
  refine { h with
    listener := h.listener.register
    covers := by rw [hidle]; trivial
    unregistered := fun c hlt => ?_
    waited := fun h6 => absurd (hst.trans_le' h6) (by decide) }
  simp only [Registered, ConnectionGroup.register, Map.get_insert]
  obtain hold | rfl := Nat.lt_succ_iff_lt_or_eq.mp hlt
  · simpa [hold.ne', Registered] using h.unregistered c hold
  · simp

/-- The wait group counts the goroutines. -/
theorem Inv.running (h : s.Inv) {c : Nat} (hc : s.listener.group.goroutines c = .handling ∨
    s.listener.group.goroutines c = .exited) : 0 < s.listener.group.handlers := by
  have hlt : c < s.listener.accepted := h.listener.lt fun e => by simp [e] at hc
  have hmem : c ∈ s.listener.alive := by simp [Listener.alive, hlt, hc]
  rw [h.listener.handlers]
  exact_mod_cast Finset.card_pos.mpr ⟨c, hmem⟩

theorem Inv.step (h : s.Inv) (hm : Moves limits s a s') : s'.Inv := by
  cases hm with
  | cancel => exact { h with context := fun _ => .inl rfl, result := fun _ => rfl }
  | propagate hc => exact { h with context := fun _ => .inl hc, begun := fun _ => rfl, left := fun _ => rfl }
  | accept hpc | cancelledAccept hpc | fail hpc =>
    refine h.goto (.inl ?_) ?_ ?_ ?_ ?_ ?_ <;> simp_all [StartPc.stage, StartPc.result]
  | temporary => exact h
  | stopped hpc hc =>
    refine (h.pass rfl rfl rfl).goto (.inl ?_) ?_ ?_ ?_ ?_ ?_ <;> simp_all [StartPc.stage, StartPc.result]
  | rejected hpc hc hconns hgo hhandlers =>
    obtain ⟨hr, -⟩ := h.idle (by rw [hpc]; decide) hc
    refine (h.pass hconns hgo hhandlers).goto (.inr (.inr hr)) ?_ ?_ ?_ ?_ ?_ <;> simp [StartPc.stage, StartPc.result]
  | registered hpc hc =>
    have hst : s.pc.stage < 3 := by rw [hpc]; decide
    refine (h.register hst hc).goto (.inr (.inr (h.idle hst hc).1)) ?_ ?_ ?_ ?_ ?_ <;>
      simp [StartPc.stage, StartPc.result]
  | @leave res hpc =>
    have hres := h.result
    rw [hpc] at hres
    exact { h with
      context := fun _ => .inr (Nat.le_refl 3)
      result := hres
      begun := fun _ => rfl
      left := fun _ => rfl
      joined := by simp [StartPc.stage]
      expired := by simp [StartPc.stage]
      waited := by simp [StartPc.stage] }
  | joinShutdown hpc hsd =>
    have hres := h.result
    have hleft := h.left
    rw [hpc] at hres hleft
    refine h.goto (.inl ?_) hres (fun _ => hleft (Nat.le_refl 3)) (fun _ => hsd) ?_ ?_ <;> simp [hpc, StartPc.stage]
  | joinExpiry hpc he =>
    have hres := h.result
    have hleft := h.left
    have hjoined := h.joined
    simp only [hpc, StartPc.stage] at hres hleft hjoined
    refine h.goto (.inl ?_) hres (fun _ => hleft (by decide)) (fun _ => hjoined (by decide)) (fun _ => he) ?_ <;>
      simp [hpc, StartPc.stage]
  | wait hpc hw =>
    have hres := h.result
    have hleft := h.left
    have hjoined := h.joined
    have hexpired := h.expired
    simp only [hpc, StartPc.stage] at hres hleft hjoined hexpired
    refine h.goto (.inl ?_) hres (fun _ => hleft (by decide)) (fun _ => hjoined (by decide))
      (fun _ => hexpired (by decide)) fun _ => hw
    simp [hpc, StartPc.stage]
  | afterFunc hsd hr =>
    exact { h with
      begun := fun _ => hr
      listening := .inr (.inl rfl)
      covers := trivial
      joined := fun h4 => by cases hsd.symm.trans (h.joined h4) }
  | closeListener hsd =>
    exact { h with
      begun := fun _ => h.begun (by simp [hsd])
      listening := .inr (.inr rfl)
      covers := trivial
      joined := fun h4 => by cases hsd.symm.trans (h.joined h4) }
  | @list order hsd hr =>
    refine { h with
      begun := fun _ => h.begun (by simp [hsd])
      listening := .inr (.inr (by simpa [hsd] using h.listening))
      covers := fun c hc => .inr ?_
      joined := fun h4 => by cases hsd.symm.trans (h.joined h4) }
    rw [hr.mem_iff, ← List.mem_toFinset]
    exact (Map.mem_dom _ c).mpr hc
  | @close order conns conn hsd =>
    have hcovers := h.covers
    rw [hsd] at hcovers
    refine { h with
      begun := fun _ => h.begun (by simp [hsd])
      listening := .inr (.inr (by simpa [hsd] using h.listening))
      covers := fun c hc => ?_
      unregistered := fun c hlt => (h.unregistered c hlt).imp_right (closed_update _)
      joined := fun h4 => by cases hsd.symm.trans (h.joined h4) }
    obtain hclosed | hmem := hcovers c hc
    · exact .inl (closed_update _ hclosed)
    · obtain rfl | hmem := List.mem_cons.mp hmem
      · exact .inl (Function.update_self ..)
      · exact .inr hmem
  | closed hsd =>
    have hcovers := h.covers
    rw [hsd] at hcovers
    exact { h with
      begun := fun _ => h.begun (by simp [hsd])
      listening := .inr (.inr (by simpa [hsd] using h.listening))
      covers := fun c hc => (hcovers c hc).resolve_right List.not_mem_nil
      joined := fun _ => rfl }
  | expire hr => exact { h with expired := fun _ => rfl }
  | completeHandshake conn =>
    have hreg := s.listener.group.completeHandshake_registered conn
    exact { h with
      listener := h.listener.completeHandshake conn
      covers := h.covers.mono (fun c hc => (hreg c).mp hc) fun _ hc => hc
      unregistered := fun c hlt => (h.unregistered c hlt).imp_left (hreg c).mpr
      waited := fun h6 => by rw [ConnectionGroup.completeHandshake_eq]; exact h.waited h6 }
  | @exit conn hrun =>
    have hreg : ∀ c, (∃ b, (s.listener.group.exit conn).connections[c]? = some b) ↔ conn ≠ c ∧ s.Registered c := by
      intro c
      rw [ConnectionGroup.exit_eq]
      simp only [Map.get_erase, Registered]
      by_cases e : conn = c <;> simp [e]
    refine { h with
      listener := h.listener.exit hrun
      covers := h.covers.mono (fun c hc => ((hreg c).mp hc).2) fun c => closed_update _
      unregistered := fun c hlt => ?_
      waited := fun h6 => by rw [ConnectionGroup.exit_eq]; exact h.waited h6 }
    by_cases e : conn = c
    · exact .inr (by simp [e])
    · exact (h.unregistered c hlt).imp (fun hc => (hreg c).mpr ⟨e, hc⟩) (closed_update _)
  | done hexit =>
    have hpos := h.running (.inr hexit)
    exact { h with
      listener := h.listener.done hexit
      waited := fun h6 => absurd (h.waited h6) hpos.ne' }

theorem inv_start {o : StartOptions} {offlineTTL : Int} {listen : Except Err Unit}
    (hs : start o offlineTTL listen = .ok s) : s.Inv := by
  obtain ⟨-, -, hs⟩ := except_bind_ok_iff.mp hs
  obtain ⟨-, -, hs⟩ := except_bind_ok_iff.mp hs
  cases hs
  refine ⟨Listener.inv_init, ?_, ?_, ?_, .inl rfl, trivial, ?_, ?_, ?_, ?_, ?_⟩ <;> simp [StartPc.stage, StartPc.result]

/-- A call of `Start` with these options, which has begun to listen. -/
def Reachable (o : StartOptions) (acts : List Action) (s : Startup) : Prop :=
  ∃ offlineTTL s₀, start o offlineTTL (.ok ()) = .ok s₀ ∧ Sys.run (step o.connectionLimits) s₀ acts = some s

theorem Reachable.inv {o : StartOptions} {acts : List Action} (h : Reachable o acts s) : s.Inv := by
  obtain ⟨offlineTTL, s₀, hs, hrun⟩ := h
  exact Sys.run_invariant (inv_start hs) (fun _ _ _ hi hstep => hi.step (step_moves hi.listener hstep)) hrun

/-! ## When `Start` returns -/

/-- An error of `Start` is an error of `Accept`. -/
theorem Moves.error (hm : Moves limits s a s') {e : Err} (hres : s'.pc.result = some (.error e)) :
    s.pc.result = some (.error e) ∨
      ∃ text, e = .new ("accept connection: " ++ text) ∧ a = .acceptError text false := by
  cases hm with
  | @fail text =>
    cases hres
    exact .inr ⟨text, rfl, rfl⟩
  | leave hpc | joinShutdown hpc | joinExpiry hpc | wait hpc => exact .inl (by rw [hpc]; exact hres)
  | accept | cancelledAccept | stopped | rejected | registered => cases hres
  | _ => exact .inl hres

theorem Reachable.error {o : StartOptions} {acts : List Action} (h : Reachable o acts s) {e : Err}
    (hres : s.pc.result = some (.error e)) : ∃ text, e = .new ("accept connection: " ++ text) ∧
      .acceptError text false ∈ acts := by
  obtain ⟨offlineTTL, s₀, hs, hrun⟩ := h
  have hinv := Sys.run_history (I := fun acts s => s.Inv ∧ ∀ e, s.pc.result = some (.error e) →
    ∃ text, e = .new ("accept connection: " ++ text) ∧ .acceptError text false ∈ acts) ⟨inv_start hs, ?_⟩ ?_ hrun
  · exact hinv.2 e hres
  · obtain ⟨-, -, hs⟩ := except_bind_ok_iff.mp hs
    cases hs
    simp [StartPc.result]
  · rintro acts s a s' - ⟨hi, herr⟩ hstep
    have hm := step_moves hi.listener hstep
    refine ⟨hi.step hm, fun e hres => ?_⟩
    obtain hold | ⟨text, rfl, rfl⟩ := hm.error hres
    · obtain ⟨text, rfl, hmem⟩ := herr e hold
      exact ⟨text, rfl, List.mem_append_left _ hmem⟩
    · exact ⟨text, rfl, List.mem_append_right _ List.mem_cons_self⟩

/-- Nothing is left of a server. -/
structure Stopped (s : Startup) : Prop where
  listening : s.listening = false
  closed : ∀ c < s.listener.accepted, s.closed c = true
  unregistered : ∀ c, ¬ s.Registered c
  goroutines : ∀ c, s.listener.group.goroutines c = .absent ∨ s.listener.group.goroutines c = .done
  expiry : s.expiryDone = true
  shutdown : s.shutdown = .done

/-- **When `Start` returns** after it has begun to listen, the listener and all connections are closed and all
goroutines have returned. It returns an error only if `Accept` has failed, and not because the context has ended. -/
theorem start_returns (o : StartOptions) (acts : List Action) (s : Startup) (res : Except Err Unit)
    (h : Reachable o acts s) (hpc : s.pc = .returned res) : s.Stopped ∧ (res = .ok () → s.cancelled = true) ∧
      ∀ e, res = .error e → ∃ text, e = .new ("accept connection: " ++ text) ∧ .acceptError text false ∈ acts := by
  have hi := h.inv
  have hdone : s.shutdown = .done := hi.joined (by simp [hpc, StartPc.stage])
  have hhandlers : s.listener.group.handlers = 0 := hi.waited (by simp [hpc, StartPc.stage])
  have hgo : ∀ c, s.listener.group.goroutines c = .absent ∨ s.listener.group.goroutines c = .done := by
    intro c
    cases hc : s.listener.group.goroutines c with
    | absent => exact .inl rfl
    | done => exact .inr rfl
    | handling => exact absurd hhandlers (hi.running (.inl hc)).ne'
    | exited => exact absurd hhandlers (hi.running (.inr hc)).ne'
  have hreg : ∀ c, ¬ s.Registered c := by
    intro c hc
    have hrun := (hi.listener.registered c).mp hc
    obtain e | e := hgo c <;> cases hrun.symm.trans e
  refine ⟨⟨?_, fun c hc => (hi.unregistered c hc).resolve_left (hreg c), hreg, hgo, ?_, hdone⟩, ?_, ?_⟩
  · simpa [hdone] using hi.listening
  · exact hi.expired (by simp [hpc, StartPc.stage])
  · rintro rfl
    exact hi.result (by simp [hpc, StartPc.result])
  · rintro e rfl
    exact h.error (by simp [hpc, StartPc.result])

end Startup

/-! ## After the context has ended -/

def Goroutine.work : Goroutine → Nat
  | .handling => 2
  | .exited => 1
  | .absent | .done => 0

/-- `n` connections are registered. -/
def ShutdownPc.work (n : Nat) : ShutdownPc → Nat
  | .idle => n + 4
  | .closingListener => n + 3
  | .closingAll => n + 2
  | .closing conns => conns.length + 1
  | .done => 0

theorem ShutdownPc.work_mono {n m : Nat} (h : n ≤ m) (pc : ShutdownPc) : pc.work n ≤ pc.work m := by
  cases pc <;> simp [work, h]

namespace Startup

variable {limits : ConnectionLimits} {s s' : Startup} {a : Action}

/-- The sections that the goroutines of the connections have left. -/
def handlersWork (l : Listener) : Nat := ∑ c ∈ Finset.range l.accepted, (l.group.goroutines c).work

/-- What is left to do once the context has ended. -/
def work (s : Startup) : Nat :=
  (6 - s.pc.stage) + (if s.runDone then 0 else 1) + s.shutdown.work (Map.dom s.listener.group.connections).card +
    (if s.expiryDone then 0 else 1) + handlersWork s.listener + s.listener.group.handshaking.card

theorem handlersWork_lt {l : Listener} {g : ConnectionGroup} {c : Nat} {next : Goroutine} (hc : c < l.accepted)
    (hgo : g.goroutines = Function.update l.group.goroutines c next) (hlt : next.work < (l.group.goroutines c).work) :
    handlersWork ⟨g, l.accepted⟩ < handlersWork l := by
  refine Finset.sum_lt_sum (fun c' _ => ?_) ⟨c, Finset.mem_range.mpr hc, ?_⟩
  · simp only [hgo, Function.update_apply]
    split
    · rename_i e
      exact e ▸ hlt.le
    · rfl
  · simpa [hgo] using hlt

/-- A step of a server whose context has ended. A call of `completeHandshake` takes a mark away. -/
inductive Stops (limits : ConnectionLimits) (s s' : Startup) : Prop
  | act {a : Action} : a ≠ .cancel → (∀ conn, a = .completeHandshake conn → s.listener.group.marked conn = true) →
      s.step limits a = some s' → Stops limits s s'

/-- The steps that come without anybody else. Assumed: a closed listener makes `Accept` fail, and a closed connection
makes its handler return. -/
def Action.Obliged (s : Startup) : Action → Prop
  | .propagate | .main | .shutdown _ | .expiry | .done _ => True
  | .acceptError .. => s.listening = false
  | .exit conn => s.closed conn = true
  | .cancel | .accept | .completeHandshake _ => False

/-- A call that takes a mark away leaves the rest as it is. -/
theorem completeHandshake_work {g : ConnectionGroup} {conn : Nat} (hm : g.marked conn = true) :
    Map.dom (g.completeHandshake conn).connections = Map.dom g.connections ∧
      (g.completeHandshake conn).handshaking.card < g.handshaking.card := by
  have hmark := ConnectionGroup.marked_iff.mp hm
  constructor
  · ext c
    rw [Map.mem_dom, Map.mem_dom, g.completeHandshake_registered]
  · refine Finset.card_lt_card ((Finset.ssubset_iff_of_subset fun c hc => ?_).mpr
      ⟨conn, ConnectionGroup.mem_handshaking.mpr hmark, ?_⟩)
    · rw [ConnectionGroup.mem_handshaking, ConnectionGroup.completeHandshake_eq, if_pos hm, Map.get_insert] at hc
      split at hc
      · cases hc
      · exact ConnectionGroup.mem_handshaking.mpr hc
    · rw [ConnectionGroup.mem_handshaking, ConnectionGroup.completeHandshake_eq, if_pos hm, Map.get_insert]
      simp

theorem exit_work (g : ConnectionGroup) (conn : Nat) :
    (Map.dom (g.exit conn).connections).card ≤ (Map.dom g.connections).card ∧
      (g.exit conn).handshaking.card ≤ g.handshaking.card := by
  rw [ConnectionGroup.exit_eq]
  constructor
  · refine Finset.card_le_card fun c hc => ?_
    rw [Map.mem_dom, Map.get_erase] at hc
    rw [Map.mem_dom]
    split at hc
    · obtain ⟨_, e⟩ := hc
      cases e
    · exact hc
  · refine Finset.card_le_card fun c hc => ?_
    rw [ConnectionGroup.mem_handshaking, Map.get_erase] at hc
    rw [ConnectionGroup.mem_handshaking]
    split at hc
    · cases hc
    · exact hc

/-- Every step leaves less to do. -/
theorem Inv.work_lt (h : s.Inv) (hc : s.cancelled = true) (hs : Stops limits s s') : s'.work < s.work := by
  obtain ⟨hne, hmark, hstep⟩ := hs
  cases step_moves h.listener hstep with
  | cancel => exact (hne rfl).elim
  | temporary _ hn | fail _ hn | rejected _ hn | registered _ hn => cases hc.symm.trans hn
  | propagate _ hr => simp [work, hr]
  | accept hpc | cancelledAccept hpc | joinShutdown hpc | joinExpiry hpc | wait hpc => simp [work, hpc, StartPc.stage]
  | stopped hpc =>
    have hsame : handlersWork ⟨s.listener.group, s.listener.accepted + 1⟩ = handlersWork s.listener := by
      simp [handlersWork, Finset.sum_range_succ, h.listener.fresh s.listener.accepted le_rfl, Goroutine.work]
    simp [work, hpc, StartPc.stage, hsame]
  | leave hpc =>
    simp only [work, hpc, StartPc.stage, if_true]
    omega
  | afterFunc hsd | closeListener hsd | close hsd | closed hsd => simp [work, hsd, ShutdownPc.work]
  | @list order hsd hr =>
    have hlen : order.length = (Map.dom s.listener.group.connections).card := by
      rw [hr.length_eq, Map.card_dom, Std.ExtTreeMap.length_keys]
    simp [work, hsd, ShutdownPc.work, hlen]
  | expire _ he => simp [work, he]
  | completeHandshake conn =>
    obtain ⟨hdom, hlt⟩ := completeHandshake_work (hmark conn rfl)
    have hsame : handlersWork ⟨s.listener.group.completeHandshake conn, s.listener.accepted⟩ =
        handlersWork s.listener := by
      rw [handlersWork, ConnectionGroup.completeHandshake_eq]
      rfl
    simp only [work, hdom, hsame]
    omega
  | @exit conn hrun =>
    obtain ⟨hdom, hshake⟩ := exit_work s.listener.group conn
    have hlt : handlersWork ⟨s.listener.group.exit conn, s.listener.accepted⟩ < handlersWork s.listener := by
      refine handlersWork_lt (h.listener.lt (c := conn) (by simp [hrun])) (by rw [ConnectionGroup.exit_eq]) ?_
      rw [hrun]
      decide
    have hshut := s.shutdown.work_mono hdom
    simp only [work]
    omega
  | @done conn hexit =>
    have hlt : handlersWork ⟨s.listener.group.done conn, s.listener.accepted⟩ < handlersWork s.listener := by
      refine handlersWork_lt (h.listener.lt (c := conn) (by simp [hexit])) rfl ?_
      rw [hexit]
      decide
    have hsame : (s.listener.group.done conn).handshaking = s.listener.group.handshaking ∧
        (s.listener.group.done conn).connections = s.listener.group.connections := ⟨rfl, rfl⟩
    simp only [work, hsame]
    omega

/-- The context stays ended. -/
theorem Moves.cancelled (hm : Moves limits s a s') (hc : s.cancelled = true) : s'.cancelled = true := by
  cases hm <;> first | exact hc | rfl

/-- Until `Start` has returned, some goroutine goes on by itself. -/
theorem Inv.progress (h : s.Inv) (limits : ConnectionLimits) (hc : s.cancelled = true) :
    (∃ res, s.pc = .returned res) ∨ ∃ a, a.Obliged s ∧ (s.step limits a).isSome := by
  by_cases hr : s.runDone = true
  · cases hsd : s.shutdown with
    | idle => exact .inr ⟨.shutdown [], trivial, by simp [Startup.step, shutdownStep, hsd, hr]⟩
    | closingListener => exact .inr ⟨.shutdown [], trivial, by simp [Startup.step, shutdownStep, hsd]⟩
    | closingAll =>
      refine .inr ⟨.shutdown s.listener.group.connections.keys, trivial, ?_⟩
      have hranges : Map.Ranges s.listener.group.connections s.listener.group.connections.keys := List.Perm.refl _
      simp [Startup.step, shutdownStep, hsd, hranges]
    | closing conns => cases conns <;> exact .inr ⟨.shutdown [], trivial, by simp [Startup.step, shutdownStep, hsd]⟩
    | done =>
      have hlisten : s.listening = false := by simpa [hsd] using h.listening
      cases hpc : s.pc with
      | accepting => exact .inr ⟨.acceptError "" false, hlisten, by simp [Startup.step, hpc]⟩
      | starting => exact .inr ⟨.main, trivial, by simp [Startup.step, main, hpc]⟩
      | leaving res => exact .inr ⟨.main, trivial, by simp [Startup.step, main, hpc]⟩
      | joiningShutdown res => exact .inr ⟨.main, trivial, by simp [Startup.step, main, hpc, hsd]⟩
      | joiningExpiry res =>
        by_cases he : s.expiryDone = true
        · exact .inr ⟨.main, trivial, by simp [Startup.step, main, hpc, he]⟩
        · exact .inr ⟨.expiry, trivial, by simp [Startup.step, hr, he]⟩
      | waiting res =>
        by_cases hw : s.listener.group.handlers = 0
        · exact .inr ⟨.main, trivial, by simp [Startup.step, main, hpc, ConnectionGroup.wait, hw]⟩
        · -- A handler is there. Its connection was closed by `closeAll`.
          rw [h.listener.handlers] at hw
          obtain ⟨c, hmem⟩ := Finset.card_pos.mp (Nat.pos_of_ne_zero (by exact_mod_cast hw))
          simp only [Listener.alive, Finset.mem_filter, Finset.mem_range] at hmem
          obtain hgo | hgo := hmem.2
          · have hcovers := h.covers
            rw [hsd] at hcovers
            have hclosed := hcovers c ((h.listener.registered c).mpr hgo)
            exact .inr ⟨.exit c, hclosed, by simp [Startup.step, Listener.step, hgo]⟩
          · exact .inr ⟨.done c, trivial, by simp [Startup.step, Listener.step, hgo]⟩
      | returned res => exact .inl ⟨res, rfl⟩
  · exact .inr ⟨.propagate, trivial, by simp [Startup.step, hc, hr]⟩

/-- **`Start` returns** after its context has ended, whatever comes in between: some goroutine can always go on by itself,
and no run goes on forever. -/
theorem start_stops (o : StartOptions) (acts : List Action) (s : Startup) (h : Reachable o acts s)
    (hc : s.cancelled = true) :
    Sys.Inevitable (Stops o.connectionLimits) (fun s' => ∃ res, s'.pc = .returned res) s ∧
      ((∃ res, s.pc = .returned res) ∨ ∃ a, a.Obliged s ∧ (s.step o.connectionLimits a).isSome) := by
  have hi := h.inv
  refine ⟨?_, hi.progress o.connectionLimits hc⟩
  refine Sys.inevitable_of_rank (I := fun s => s.Inv ∧ s.cancelled = true) work (fun s hs => ?_) (fun s s' hs hstop => ?_)
    ⟨hi, hc⟩
  · obtain hret | ⟨a, hob, hsome⟩ := hs.1.progress o.connectionLimits hs.2
    · exact .inl hret
    · obtain ⟨s', hstep⟩ := Option.isSome_iff_exists.mp hsome
      refine .inr ⟨s', .act (a := a) ?_ ?_ hstep⟩
      · rintro rfl
        exact hob
      · rintro conn rfl
        exact hob.elim
  · obtain ⟨-, -, hstep⟩ := id hstop
    have hm := step_moves hs.1.listener hstep
    exact ⟨⟨hs.1.step hm, hm.cancelled hs.2⟩, hs.1.work_lt hs.2 hstop⟩

/-- The context ends while a second connection comes in. -/
def endsEarly : List Action :=
  [.accept, .main, .completeHandshake 0, .accept, .cancel, .propagate, .main]

/-- The end of `Start`. -/
def endsAll : List Action :=
  [.shutdown [], .shutdown [], .shutdown [0], .shutdown [], .exit 0, .shutdown [], .main, .main, .expiry, .main, .done 0, .main]

def defaultStart : StartOptions := ⟨false, false, defaultConnectionLimits, 30, 1048576, 10⟩

theorem start_returns_early : ∃ s, Reachable defaultStart (endsEarly ++ endsAll) s ∧ s.listener.accepted = 2 ∧
    s.Stopped := by
  have hrun : ((Sys.run (step defaultConnectionLimits) {} (endsEarly ++ endsAll)).map fun s =>
      (s.pc.stage, s.listener.accepted)) = some (6, 2) := by decide +kernel
  obtain ⟨s, hs, he⟩ := Option.map_eq_some_iff.mp hrun
  obtain ⟨hst, ha⟩ := Prod.mk.inj he
  obtain ⟨res, hpc⟩ : ∃ res, s.pc = .returned res := by
    cases hpc : s.pc <;> simp_all [StartPc.stage]
  have hreach : Reachable defaultStart (endsEarly ++ endsAll) s := ⟨3600, {}, rfl, hs⟩
  exact ⟨s, hreach, ha, (start_returns defaultStart (endsEarly ++ endsAll) s res hreach hpc).1⟩

theorem start_stops_early : ∃ s, Reachable defaultStart endsEarly s ∧ s.cancelled = true ∧ s.listener.accepted = 2 ∧
    Sys.Inevitable (Stops defaultConnectionLimits) (fun s' => ∃ res, s'.pc = .returned res) s := by
  have hrun : ((Sys.run (step defaultConnectionLimits) {} endsEarly).map fun s =>
      (s.cancelled, s.listener.accepted)) = some (true, 2) := by decide +kernel
  obtain ⟨s, hs, he⟩ := Option.map_eq_some_iff.mp hrun
  obtain ⟨hc, ha⟩ := Prod.mk.inj he
  have hreach : Reachable defaultStart endsEarly s := ⟨3600, {}, rfl, hs⟩
  exact ⟨s, hreach, hc, ha, (start_stops defaultStart endsEarly s hreach hc).1⟩

end Startup

end OrbMQ
