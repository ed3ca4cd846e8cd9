import OrbMQ.Lib.Io
import OrbMQ.Lib.Map
import OrbMQ.Lib.Pool
import OrbMQ.Lib.Sys

/-!
# The limits of connections and handshakes (`connectionGroup` in `internal/server/server.go`)

`start` registers a connection as handshaking, or rejects it at a limit. `completeHandshake` takes the mark away, and
the goroutine of the connection takes the connection itself away when its handler has returned. Both count `Handshakes`
down if they find the mark; the handler may call `completeHandshake` or not, and anybody may call it again.

* `ConnectionGroup.Refines`: the group is a `Pool` of connections; the handshaking ones are pending, and the counter is
  their number. `Listener.reached_refines`: in every run, it takes steps of the pool.
* `Listener.connection_limits`: the counters and the limits, and what becomes of rejected connections.
* `Listener.wait_returns`: after `wait`, nobody is registered.

Each `Accept` of the listener returns a new connection. They are numbered in this order; a connection that was rejected
or has left does not come back under its number.
-/

namespace OrbMQ

open Go

/-! ## The source -/

structure ConnectionLimits where
  maxConnections : Int
  maxHandshakes : Int

def defaultConnectionLimits : ConnectionLimits := ⟨10000, 1000⟩

def ConnectionLimits.validate (l : ConnectionLimits) : Except Err Unit :=
  if l.maxConnections ≤ 0 ∨ l.maxHandshakes ≤ 0 ∨ l.maxHandshakes > l.maxConnections then
    .error (.new "invalid connection limits")
  else .ok ()

theorem ConnectionLimits.validate_iff (l : ConnectionLimits) : l.validate = .ok () ↔
    0 < l.maxConnections ∧ 0 < l.maxHandshakes ∧ l.maxHandshakes ≤ l.maxConnections := by
  unfold validate
  split
  · simp only [reduceCtorEq, false_iff]
    omega
  · simp only [true_iff]
    omega

example : defaultConnectionLimits.validate = .ok () := by decide

/-- The counters of a group. (Those of `security.go` are fields of `Server`.) -/
structure ConnectionStats where
  handshakes : Int := 0
  connectionRejections : UInt64 := 0
  handshakeRejections : UInt64 := 0

/-- The goroutine that `start` begins. Its deferred functions are `exit` and then `handlers.Done()`. -/
inductive Goroutine where
  | absent
  | handling
  | exited
  | done
  deriving DecidableEq

/-- `handlers` is the counter of the wait group. -/
structure ConnectionGroup where
  connections : Go.Map Nat Bool := ∅
  handlers : Int := 0
  stats : ConnectionStats := {}
  goroutines : Nat → Goroutine := fun _ => .absent

namespace ConnectionGroup

/-- The end of `start`, for a connection that is not rejected. -/
def register (conn : Nat) (g : ConnectionGroup) : ConnectionGroup where
  connections := g.connections.insert conn true
  handlers := g.handlers + 1
  stats := { g.stats with handshakes := g.stats.handshakes + 1 }
  goroutines := Function.update g.goroutines conn .handling

/-- `start`; the context has ended if `cancelled`. -/
def start (cancelled : Bool) (conn : Nat) (limits : ConnectionLimits) (g : ConnectionGroup) : Bool × ConnectionGroup :=
  if cancelled then (false, g)
  else if (g.connections.size : Int) ≥ limits.maxConnections ∨ g.stats.handshakes ≥ limits.maxHandshakes then
    if (g.connections.size : Int) ≥ limits.maxConnections then
      (true, { g with stats.connectionRejections := g.stats.connectionRejections + 1 })
    else (true, { g with stats.handshakeRejections := g.stats.handshakeRejections + 1 })
  else (true, g.register conn)

/-- `g.connections[conn]`, which is false for a connection that is not there. -/
def marked (conn : Nat) (g : ConnectionGroup) : Bool := g.connections[conn]?.getD false

def completeHandshake (conn : Nat) (g : ConnectionGroup) : ConnectionGroup :=
  if g.marked conn then
    { g with
      connections := g.connections.insert conn false
      stats.handshakes := g.stats.handshakes - 1 }
  else g

/-- The deferred function of the goroutine. -/
def exit (conn : Nat) (g : ConnectionGroup) : ConnectionGroup :=
  let g := if g.marked conn then { g with stats.handshakes := g.stats.handshakes - 1 } else g
  { g with
    connections := g.connections.erase conn
    goroutines := Function.update g.goroutines conn .exited }

/-- `handlers.Done()`, the last thing that the goroutine does. -/
def done (conn : Nat) (g : ConnectionGroup) : ConnectionGroup :=
  { g with
    handlers := g.handlers - 1
    goroutines := Function.update g.goroutines conn .done }

/-- `wait` returns. -/
def wait (g : ConnectionGroup) : Bool := g.handlers == 0

end ConnectionGroup

/-- The listener with its group; `accepted` connections have come in. -/
structure Listener where
  group : ConnectionGroup := {}
  accepted : Nat := 0

namespace Listener

/-- The sections under the lock of the group. Anybody can call `completeHandshake` for any connection. -/
inductive Action where
  | start (cancelled : Bool)
  | completeHandshake (conn : Nat)
  | exit (conn : Nat)
  | done (conn : Nat)

def step (limits : ConnectionLimits) (l : Listener) : Action → Option Listener
  | .start cancelled =>
    some { group := (l.group.start cancelled l.accepted limits).2, accepted := l.accepted + 1 }
  | .completeHandshake conn => some { l with group := l.group.completeHandshake conn }
  | .exit conn =>
    if l.group.goroutines conn = .handling then some { l with group := l.group.exit conn } else none
  | .done conn =>
    if l.group.goroutines conn = .exited then some { l with group := l.group.done conn } else none

end Listener

/-! ## One call -/

/-- What became of an accepted connection: the server stops, the connection was rejected, or it is registered. -/
inductive Outcome where
  | stopped
  | rejected
  | registered
  deriving DecidableEq

namespace ConnectionGroup

variable {limits : ConnectionLimits} {g g' : ConnectionGroup} {conn c : Nat} {cancelled : Bool}

/-- The outcome of a call of `start`, by what it returns and by the connections that are there after it. -/
def outcome (conn : Nat) (res : Bool × ConnectionGroup) : Outcome :=
  if res.1 = false then .stopped
  else if res.2.connections[conn]? = none then .rejected
  else .registered

/-- The results of `start`. -/
inductive Starts (limits : ConnectionLimits) (g : ConnectionGroup) (conn : Nat) : ConnectionGroup → Outcome → Prop
  | stopped : Starts limits g conn g .stopped
  | full : limits.maxConnections ≤ g.connections.size →
      Starts limits g conn { g with stats.connectionRejections := g.stats.connectionRejections + 1 } .rejected
  | busy : (g.connections.size : Int) < limits.maxConnections → limits.maxHandshakes ≤ g.stats.handshakes →
      Starts limits g conn { g with stats.handshakeRejections := g.stats.handshakeRejections + 1 } .rejected
  | registered : (g.connections.size : Int) < limits.maxConnections → g.stats.handshakes < limits.maxHandshakes →
      Starts limits g conn (g.register conn) .registered

theorem start_starts (cancelled : Bool) (limits : ConnectionLimits) (hc : g.connections[conn]? = none) :
    Starts limits g conn (g.start cancelled conn limits).2 (outcome conn (g.start cancelled conn limits)) := by
  unfold start
  split
  · exact .stopped
  · split
    · split
      · rename_i hfull
        simpa [outcome, hc] using Starts.full hfull
      · rename_i hlimit hfull
        simpa [outcome, hc] using Starts.busy (not_le.mp hfull) (hlimit.resolve_left hfull)
    · rename_i hroom
      rw [not_or, ge_iff_le, not_le, ge_iff_le, not_le] at hroom
      simpa [outcome, register] using Starts.registered hroom.1 hroom.2

/-- A rejected connection counts in one of the counters. -/
theorem Starts.rejected (h : Starts limits g conn g' .rejected) :
    (g'.stats.connectionRejections = g.stats.connectionRejections + 1 ∧
      g'.stats.handshakeRejections = g.stats.handshakeRejections) ∨
    (g'.stats.connectionRejections = g.stats.connectionRejections ∧
      g'.stats.handshakeRejections = g.stats.handshakeRejections + 1) := by
  cases h with
  | full => exact .inl ⟨rfl, rfl⟩
  | busy => exact .inr ⟨rfl, rfl⟩

theorem Starts.not_rejected {o : Outcome} (h : Starts limits g conn g' o) (ho : o ≠ .rejected) :
    g'.stats.connectionRejections = g.stats.connectionRejections ∧
      g'.stats.handshakeRejections = g.stats.handshakeRejections := by
  cases h with
  | stopped | registered => exact ⟨rfl, rfl⟩
  | full | busy => exact (ho rfl).elim

theorem exit_eq (g : ConnectionGroup) (conn : Nat) : g.exit conn = { g with
    connections := g.connections.erase conn
    goroutines := Function.update g.goroutines conn .exited
    stats.handshakes := if g.marked conn then g.stats.handshakes - 1 else g.stats.handshakes } := by
  unfold exit
  dsimp only
  split <;> rfl

theorem completeHandshake_eq (g : ConnectionGroup) (conn : Nat) : g.completeHandshake conn = { g with
    connections := if g.marked conn then g.connections.insert conn false else g.connections
    stats.handshakes := if g.marked conn then g.stats.handshakes - 1 else g.stats.handshakes } := by
  unfold completeHandshake
  split <;> rfl

theorem marked_iff : g.marked conn = true ↔ g.connections[conn]? = some true := by
  unfold marked
  cases g.connections[conn]? <;> simp

/-- The same connections are registered after `completeHandshake`. -/
theorem completeHandshake_registered (g : ConnectionGroup) (conn c : Nat) :
    (∃ b, (g.completeHandshake conn).connections[c]? = some b) ↔ ∃ b, g.connections[c]? = some b := by
  rw [completeHandshake_eq]
  dsimp only
  split
  · rename_i hm
    rw [marked_iff] at hm
    rw [Map.get_insert]
    by_cases e : conn = c
    · simp [← e, hm]
    · simp [e]
  · rfl

/-! ## The group as a pool -/

/-- The connections that are marked as handshaking. -/
def handshaking (g : ConnectionGroup) : Finset Nat :=
  (Map.dom g.connections).filter fun c => g.connections[c]? = some true

theorem mem_handshaking : c ∈ g.handshaking ↔ g.connections[c]? = some true := by
  simp only [handshaking, Finset.mem_filter, Map.mem_dom, and_iff_right_iff_imp]
  exact fun h => ⟨true, h⟩

/-- The pool that a group with these limits is. -/
abbrev Connections (limits : ConnectionLimits) := Pool Nat limits.maxConnections.toNat limits.maxHandshakes.toNat

/-- The registered connections are the members, the handshaking ones are pending, and `Handshakes` counts them. -/
structure Refines (limits : ConnectionLimits) (g : ConnectionGroup) (p : Connections limits) : Prop where
  members : ∀ c, c ∈ p.members ↔ ∃ b, g.connections[c]? = some b
  pending : ∀ c, c ∈ p.pending ↔ g.connections[c]? = some true
  handshakes : g.stats.handshakes = p.pending.card

namespace Refines

variable {p : Connections limits}

theorem size (h : g.Refines limits p) : g.connections.size = p.members.card := by
  rw [← Map.card_dom]
  congr 1
  ext c
  rw [Map.mem_dom, h.members]

theorem handshaking_eq (h : g.Refines limits p) : g.handshaking = p.pending := by
  ext c
  rw [mem_handshaking, h.pending]

/-- Nothing happens to the connections. -/
theorem congr (h : g.Refines limits p) (hc : g'.connections = g.connections)
    (hs : g'.stats.handshakes = g.stats.handshakes) : g'.Refines limits p :=
  ⟨fun c => by rw [hc, h.members], fun c => by rw [hc, h.pending], by rw [hs, h.handshakes]⟩

theorem register (h : g.Refines limits p) (hc : g.connections[conn]? = none) (room : p.Open) :
    (g.register conn).Refines limits (p.join conn room) := by
  have hnew : conn ∉ p.members := by simp [h.members, hc]
  refine ⟨fun c => ?_, fun c => ?_, ?_⟩
  · simp only [Pool.join, ConnectionGroup.register, Finset.mem_insert, h.members, Map.get_insert]
    by_cases e : conn = c
    · simp [e]
    · simp [e, Ne.symm e]
  · simp only [Pool.join, ConnectionGroup.register, Finset.mem_insert, h.pending, Map.get_insert]
    by_cases e : conn = c
    · simp [e]
    · simp [e, Ne.symm e]
  · simp only [ConnectionGroup.register, h.handshakes, p.card_pending_join hnew room]
    omega

/-- The counter after a section that takes the mark of `conn` away. -/
theorem unmark (h : g.Refines limits p) (conn : Nat) :
    (if g.marked conn then g.stats.handshakes - 1 else g.stats.handshakes) = (p.settle conn).pending.card := by
  have hcard := p.card_pending_settle conn
  simp only [h.pending, ← marked_iff] at hcard
  rw [h.handshakes]
  split at hcard
  · rw [if_pos ‹_›]
    omega
  · rw [if_neg ‹_›]
    omega

theorem completeHandshake (h : g.Refines limits p) (conn : Nat) :
    (g.completeHandshake conn).Refines limits (p.settle conn) := by
  refine ⟨fun c => ?_, fun c => ?_, ?_⟩
  · rw [completeHandshake_registered]
    exact h.members c
  · rw [completeHandshake_eq]
    simp only [Pool.settle, Finset.mem_erase, h.pending]
    split
    · rw [Map.get_insert]
      by_cases e : conn = c
      · simp [e]
      · simp [e, Ne.symm e]
    · rename_i hm
      rw [marked_iff] at hm
      rw [and_iff_right_iff_imp]
      rintro hc rfl
      exact hm hc
  · rw [completeHandshake_eq]
    exact h.unmark conn

theorem exit (h : g.Refines limits p) (conn : Nat) : (g.exit conn).Refines limits (p.leave conn) := by
  rw [exit_eq]
  refine ⟨fun c => ?_, fun c => ?_, h.unmark conn⟩
  · simp only [Pool.leave, Finset.mem_erase, h.members, Map.get_erase]
    by_cases e : conn = c
    · simp [e]
    · simp [e, Ne.symm e]
  · simp only [Pool.leave, Finset.mem_erase, h.pending, Map.get_erase]
    by_cases e : conn = c
    · simp [e]
    · simp [e, Ne.symm e]

/-- There is room while neither limit is reached. -/
theorem room (h : g.Refines limits p) (hc : (g.connections.size : Int) < limits.maxConnections)
    (hs : g.stats.handshakes < limits.maxHandshakes) : p.Open := by
  rw [h.size] at hc
  rw [h.handshakes] at hs
  exact ⟨by omega, by omega⟩

end Refines

end ConnectionGroup

namespace Listener

variable {limits : ConnectionLimits} {l l' : Listener} {a : Action} {c : Nat}

/-! ## The goroutines -/

/-- The goroutines that the wait group counts. -/
def alive (l : Listener) : Finset Nat :=
  (Finset.range l.accepted).filter fun c => l.group.goroutines c = .handling ∨ l.group.goroutines c = .exited

/-- A connection is registered while its handler runs. -/
structure Inv (l : Listener) : Prop where
  registered : ∀ c, (∃ b, l.group.connections[c]? = some b) ↔ l.group.goroutines c = .handling
  fresh : ∀ c, l.accepted ≤ c → l.group.goroutines c = .absent
  handlers : l.group.handlers = l.alive.card

theorem Inv.next (h : l.Inv) : l.group.connections[l.accepted]? = none := by
  by_contra hc
  obtain ⟨b, hb⟩ := Option.ne_none_iff_exists'.mp hc
  have hrun := (h.registered _).mp ⟨b, hb⟩
  rw [h.fresh _ le_rfl] at hrun
  cases hrun

/-- A step, by what it does to the group. -/
inductive Moves (limits : ConnectionLimits) (l : Listener) : Action → Listener → Prop
  | start {cancelled : Bool} {g : ConnectionGroup} {o : Outcome} : l.group.Starts limits l.accepted g o →
      ConnectionGroup.outcome l.accepted (l.group.start cancelled l.accepted limits) = o →
      Moves limits l (.start cancelled) ⟨g, l.accepted + 1⟩
  | completeHandshake (conn : Nat) :
      Moves limits l (.completeHandshake conn) { l with group := l.group.completeHandshake conn }
  | exit {conn : Nat} : l.group.goroutines conn = .handling →
      Moves limits l (.exit conn) { l with group := l.group.exit conn }
  | done {conn : Nat} : l.group.goroutines conn = .exited →
      Moves limits l (.done conn) { l with group := l.group.done conn }

theorem Inv.moves (h : l.Inv) (hs : l.step limits a = some l') : Moves limits l a l' := by
  cases a with
  | start cancelled =>
    cases hs
    exact .start (ConnectionGroup.start_starts cancelled limits h.next) rfl
  | completeHandshake conn =>
    cases hs
    exact .completeHandshake conn
  | exit conn =>
    simp only [step] at hs
    split at hs
    · cases hs
      exact .exit ‹_›
    · cases hs
  | done conn =>
    simp only [step] at hs
    split at hs
    · cases hs
      exact .done ‹_›
    · cases hs

theorem Inv.lt (h : l.Inv) (hc : l.group.goroutines c ≠ .absent) : c < l.accepted := by
  by_contra hge
  exact hc (h.fresh c (not_lt.mp hge))

/-- A connection comes in that is not registered. -/
theorem Inv.pass (h : l.Inv) {g : ConnectionGroup} (hconns : g.connections = l.group.connections)
    (hgo : g.goroutines = l.group.goroutines) (hhandlers : g.handlers = l.group.handlers) :
    Inv ⟨g, l.accepted + 1⟩ := by
  refine ⟨?_, fun c hc => ?_, ?_⟩
  · simp only [hconns, hgo]
    exact h.registered
  · simp only [hgo]
    exact h.fresh c (Nat.le_of_succ_le hc)
  · have halive : alive ⟨g, l.accepted + 1⟩ = l.alive := by
      simp [alive, Finset.range_add_one, Finset.filter_insert, hgo, h.fresh l.accepted le_rfl]
    rw [halive]
    exact hhandlers.trans h.handlers

theorem Inv.register (h : l.Inv) : Inv ⟨l.group.register l.accepted, l.accepted + 1⟩ := by
  refine ⟨fun c => ?_, fun c hc => ?_, ?_⟩
  · simp only [ConnectionGroup.register, Map.get_insert, Function.update_apply]
    by_cases e : l.accepted = c
    · simp [e]
    · simpa [e, Ne.symm e] using h.registered c
  · have hlt : l.accepted < c := hc
    simp only [ConnectionGroup.register, Function.update_of_ne hlt.ne']
    exact h.fresh c hlt.le
  · have halive : alive ⟨l.group.register l.accepted, l.accepted + 1⟩ = insert l.accepted l.alive := by
      ext c
      simp only [alive, ConnectionGroup.register, Finset.mem_filter, Finset.mem_range, Finset.mem_insert,
        Function.update_apply]
      by_cases e : c = l.accepted
      · simp [e]
      · have hlt : c < l.accepted + 1 ↔ c < l.accepted := by omega
        simp [e, hlt]
    rw [halive, Finset.card_insert_of_notMem (by simp [alive])]
    simp only [ConnectionGroup.register, h.handlers]
    omega

theorem Inv.completeHandshake (h : l.Inv) (conn : Nat) : Inv { l with group := l.group.completeHandshake conn } := by
  refine ⟨fun c => ?_, ?_, ?_⟩
  · rw [ConnectionGroup.completeHandshake_registered, ConnectionGroup.completeHandshake_eq]
    exact h.registered c
  · rw [ConnectionGroup.completeHandshake_eq]
    exact h.fresh
  · rw [ConnectionGroup.completeHandshake_eq]
    exact h.handlers

theorem Inv.exit (h : l.Inv) {conn : Nat} (hrun : l.group.goroutines conn = .handling) :
    Inv { l with group := l.group.exit conn } := by
  have hlt := h.lt (c := conn) (by simp [hrun])
  rw [ConnectionGroup.exit_eq]
  refine ⟨fun c => ?_, fun c hc => ?_, h.handlers.trans ?_⟩
  · simp only [Map.get_erase, Function.update_apply]
    by_cases e : conn = c
    · simp [e]
    · simpa [e, Ne.symm e] using h.registered c
  · simp only [Function.update_of_ne (Nat.ne_of_gt (hlt.trans_le hc))]
    exact h.fresh c hc
  · -- The wait group still counts the goroutine.
    congr 2
    ext c
    simp only [alive, Finset.mem_filter, Function.update_apply]
    by_cases e : c = conn
    · simp [e, hrun]
    · simp [e]

theorem Inv.done (h : l.Inv) {conn : Nat} (hexit : l.group.goroutines conn = .exited) :
    Inv { l with group := l.group.done conn } := by
  have hlt := h.lt (c := conn) (by simp [hexit])
  refine ⟨fun c => (h.registered c).trans ?_, fun c hc => ?_, ?_⟩
  · simp only [ConnectionGroup.done, Function.update_apply]
    by_cases e : c = conn
    · simp [e, hexit]
    · simp [e]
  · simp only [ConnectionGroup.done, Function.update_of_ne (Nat.ne_of_gt (hlt.trans_le hc))]
    exact h.fresh c hc
  · have hmem : conn ∈ l.alive := by simp [alive, hlt, hexit]
    have halive : alive { l with group := l.group.done conn } = l.alive.erase conn := by
      ext c
      simp only [alive, ConnectionGroup.done, Finset.mem_filter, Finset.mem_erase, Function.update_apply]
      by_cases e : c = conn
      · simp [e]
      · simp [e]
    have hcard := Finset.card_erase_add_one hmem
    rw [halive]
    simp only [ConnectionGroup.done, h.handlers]
    omega

/-- **One step.** -/
theorem Inv.step (h : l.Inv) (hm : Moves limits l a l') : l'.Inv := by
  cases hm with
  | start hst =>
    cases hst with
    | stopped | full | busy => exact h.pass rfl rfl rfl
    | registered => exact h.register
  | completeHandshake conn => exact h.completeHandshake conn
  | exit hrun => exact h.exit hrun
  | done hexit => exact h.done hexit

theorem inv_init : Inv {} := by
  refine ⟨fun c => ?_, fun c _ => rfl, rfl⟩
  simp

/-! ## Every run -/

/-- A step of the group is one of the pool, or none. -/
theorem step_refines (h : l.Inv) (hm : Moves limits l a l') {p : ConnectionGroup.Connections limits}
    (hp : l.group.Refines limits p) :
    ∃ p', Relation.ReflTransGen Pool.Step p p' ∧ l'.group.Refines limits p' := by
  cases hm with
  | start hst =>
    cases hst with
    | stopped => exact ⟨p, .refl, hp⟩
    | full | busy => exact ⟨p, .refl, hp.congr rfl rfl⟩
    | registered hc hs =>
      have room := hp.room hc hs
      have hnew : l.accepted ∉ p.members := by simp [hp.members, h.next]
      exact ⟨_, .single (.join hnew room), hp.register h.next room⟩
  | completeHandshake conn => exact ⟨_, .single (.settle conn), hp.completeHandshake conn⟩
  | @exit conn => exact ⟨_, .single (.leave conn), hp.exit conn⟩
  | done => exact ⟨p, .refl, hp.congr rfl rfl⟩

/-- **The group is a pool within the limits.** -/
theorem reached_refines {acts : List Action} (hrun : Sys.run (step limits) {} acts = some l) :
    l.Inv ∧ ∃ p, Relation.ReflTransGen Pool.Step Pool.empty p ∧ l.group.Refines limits p := by
  refine Sys.run_invariant (I := fun l : Listener => l.Inv ∧
    ∃ p, Relation.ReflTransGen Pool.Step Pool.empty p ∧ l.group.Refines limits p)
    ⟨inv_init, Pool.empty, .refl, ?_⟩ ?_ hrun
  · exact ⟨by simp [Pool.empty], by simp [Pool.empty], rfl⟩
  · rintro l a l' ⟨hi, p, hreach, hp⟩ hs
    have hm := hi.moves hs
    obtain ⟨p', hstep, hp'⟩ := step_refines hi hm hp
    exact ⟨hi.step hm, p', hreach.trans hstep, hp'⟩

/-- **After `wait`** no connection is registered, so no handshake is counted. -/
theorem wait_returns {acts : List Action} (hrun : Sys.run (step limits) {} acts = some l) (hw : l.group.wait = true) :
    (∀ c : Nat, l.group.connections[c]? = none) ∧ l.group.stats.handshakes = 0 := by
  obtain ⟨hi, p, -, hp⟩ := reached_refines hrun
  have hnone : ∀ c : Nat, l.group.connections[c]? = none := by
    intro c
    by_contra hc
    have hgo := (hi.registered c).mp (Option.ne_none_iff_exists'.mp hc)
    have hmem : c ∈ l.alive := by simp [alive, hgo, hi.lt (c := c) (by simp [hgo])]
    have hcard := Finset.card_pos.mpr ⟨c, hmem⟩
    have hhandlers := hi.handlers
    rw [ConnectionGroup.wait, beq_iff_eq] at hw
    omega
  refine ⟨hnone, ?_⟩
  have hempty : p.pending = ∅ := Finset.eq_empty_of_forall_notMem fun c hc => by simp [hp.pending, hnone] at hc
  rw [hp.handshakes, hempty]
  rfl

/-! ## Rejected connections -/

/-- The outcome of every `start` so far. -/
def note (limits : ConnectionLimits) (l : Listener) (a : Action) (log : Nat → Option Outcome) : Nat → Option Outcome :=
  match a with
  | .start cancelled =>
    Function.update log l.accepted
      (some (ConnectionGroup.outcome l.accepted (l.group.start cancelled l.accepted limits)))
  | _ => log

/-- How many of the first `n` connections were rejected. -/
def rejections (log : Nat → Option Outcome) (n : Nat) : Nat :=
  ((Finset.range n).filter fun c => log c = some .rejected).card

theorem rejections_succ (log : Nat → Option Outcome) (n : Nat) (o : Outcome) :
    rejections (Function.update log n (some o)) (n + 1) = rejections log n + if o = .rejected then 1 else 0 := by
  have hold : (Finset.range n).filter (fun c => Function.update log n (some o) c = some .rejected) =
      (Finset.range n).filter fun c => log c = some .rejected := by
    refine Finset.filter_congr fun c hc => ?_
    rw [Function.update_of_ne (Finset.mem_range.mp hc).ne]
  unfold rejections
  rw [Finset.range_add_one, Finset.filter_insert, hold, Function.update_self]
  simp only [Option.some.injEq]
  split
  · exact Finset.card_insert_of_notMem (by simp)
  · rfl

/-- The history agrees with the group. -/
structure Logged (l : Listener) (log : Nat → Option Outcome) : Prop where
  begun : ∀ c, l.group.goroutines c ≠ .absent → log c = some .registered
  counted : l.group.stats.connectionRejections + l.group.stats.handshakeRejections =
    UInt64.ofNat (rejections log l.accepted)

theorem Logged.step {log : Nat → Option Outcome} (hi : l.Inv) (h : l.Logged log) (hm : Moves limits l a l') :
    l'.Logged (note limits l a log) := by
  cases hm with
  | @start cancelled g o hst ho =>
    have hpass : g.goroutines = l.group.goroutines → ∀ c, g.goroutines c ≠ .absent →
        Function.update log l.accepted (some o) c = some .registered := by
      intro hgo c hc
      rw [hgo] at hc
      rw [Function.update_of_ne (hi.lt hc).ne]
      exact h.begun c hc
    simp only [note, ho]
    cases hst with
    | stopped => exact ⟨hpass rfl, by simpa [rejections_succ] using h.counted⟩
    | full =>
      refine ⟨hpass rfl, ?_⟩
      simp only [rejections_succ, if_true, UInt64.ofNat_add, ← h.counted]
      grind
    | busy =>
      refine ⟨hpass rfl, ?_⟩
      simp only [rejections_succ, if_true, UInt64.ofNat_add, ← h.counted]
      grind
    | registered =>
      refine ⟨fun c hc => ?_, by simpa [rejections_succ, ConnectionGroup.register] using h.counted⟩
      by_cases e : c = l.accepted
      · rw [e, Function.update_self]
      · rw [Function.update_of_ne e]
        refine h.begun c ?_
        simpa [ConnectionGroup.register, Function.update_of_ne e] using hc
  | completeHandshake conn =>
    rw [ConnectionGroup.completeHandshake_eq]
    exact ⟨h.begun, h.counted⟩
  | @exit conn hrun =>
    rw [ConnectionGroup.exit_eq]
    refine ⟨fun c hc => h.begun c ?_, h.counted⟩
    by_cases e : c = conn
    · simp [e, hrun]
    · simpa [Function.update_of_ne e] using hc
  | @done conn hexit =>
    refine ⟨fun c hc => h.begun c ?_, h.counted⟩
    by_cases e : c = conn
    · simp [e, hexit]
    · simpa [ConnectionGroup.done, Function.update_of_ne e] using hc

theorem logged {log : Nat → Option Outcome} {acts : List Action}
    (hrun : Sys.run (Sys.record (step limits) (note limits)) ({}, fun _ => none) acts = some (l, log)) :
    l.Logged log := by
  have h := Sys.run_invariant (I := fun x : Listener × (Nat → Option Outcome) => x.1.Inv ∧ x.1.Logged x.2)
    ⟨inv_init, fun c hc => (hc rfl).elim, rfl⟩ ?_ hrun
  · exact h.2
  · rintro ⟨l, log⟩ a ⟨l', log'⟩ ⟨hi, h⟩ hs
    obtain ⟨hstep, rfl⟩ := Sys.record_eq_some.mp hs
    have hm := hi.moves hstep
    exact ⟨hi.step hm, h.step hi hm⟩

/-- What holds for a group with these limits, by the outcomes of `start`. -/
structure Limited (limits : ConnectionLimits) (l : Listener) (log : Nat → Option Outcome) : Prop where
  /-- `Handshakes` is the number of registered connections that are marked as handshaking. -/
  handshakes : l.group.stats.handshakes = l.group.handshaking.card
  nonneg : 0 ≤ l.group.stats.handshakes
  maxHandshakes : l.group.stats.handshakes ≤ limits.maxHandshakes
  registered : l.group.stats.handshakes ≤ l.group.connections.size
  maxConnections : (l.group.connections.size : Int) ≤ limits.maxConnections
  /-- Only what `start` has registered is ever there: no connection that was rejected. -/
  unregistered : ∀ c : Nat, log c ≠ some .registered → l.group.connections[c]? = none
  /-- The next connection counts in one of the counters if it is rejected. -/
  rejected : ∀ cancelled, ConnectionGroup.outcome l.accepted (l.group.start cancelled l.accepted limits) = .rejected →
    let stats := (l.group.start cancelled l.accepted limits).2.stats
    (stats.connectionRejections = l.group.stats.connectionRejections + 1 ∧
      stats.handshakeRejections = l.group.stats.handshakeRejections) ∨
    (stats.connectionRejections = l.group.stats.connectionRejections ∧
      stats.handshakeRejections = l.group.stats.handshakeRejections + 1)
  /-- It counts in none of them if it is not. -/
  accepted : ∀ cancelled, ConnectionGroup.outcome l.accepted (l.group.start cancelled l.accepted limits) ≠ .rejected →
    let stats := (l.group.start cancelled l.accepted limits).2.stats
    stats.connectionRejections = l.group.stats.connectionRejections ∧
      stats.handshakeRejections = l.group.stats.handshakeRejections
  /-- So together they are the number of rejected connections. -/
  counted : l.group.stats.connectionRejections + l.group.stats.handshakeRejections =
    UInt64.ofNat (rejections log l.accepted)

/-- **Connections and handshakes stay within their limits**, whoever calls `completeHandshake`, and whenever handlers
return. -/
theorem connection_limits (limits : ConnectionLimits) (hl : limits.validate = .ok ()) (acts : List Action)
    (l : Listener) (log : Nat → Option Outcome)
    (hrun : Sys.run (Sys.record (step limits) (note limits)) ({}, fun _ => none) acts = some (l, log)) :
    l.Limited limits log := by
  obtain ⟨-, hmax, hle⟩ := limits.validate_iff.mp hl
  obtain ⟨hi, p, -, hp⟩ := reached_refines (Sys.run_of_record hrun)
  have hlog := logged hrun
  have hpending := p.pending_le
  have hmembers := p.members_le
  have hsub := p.pending_le_members
  refine ⟨?_, ?_, ?_, ?_, ?_, fun c hc => ?_, fun cancelled ho => ?_, fun cancelled ho => ?_, hlog.counted⟩
  · rw [hp.handshaking_eq]
    exact hp.handshakes
  · rw [hp.handshakes]
    omega
  · rw [hp.handshakes]
    omega
  · rw [hp.handshakes, hp.size]
    omega
  · rw [hp.size]
    omega
  · by_contra hreg
    have hgo := (hi.registered c).mp (Option.ne_none_iff_exists'.mp hreg)
    exact hc (hlog.begun c (by simp [hgo]))
  · have hst := ConnectionGroup.start_starts cancelled limits hi.next
    rw [ho] at hst
    exact hst.rejected
  · exact (ConnectionGroup.start_starts cancelled limits hi.next).not_rejected ho

/-- With two connections and one handshake: the second connection comes while the first one is handshaking, and the
fourth one while both places are taken. The handshake of the first connection is completed twice before it leaves. -/
def rejectsTwo : List Action :=
  [.start false, .start false, .completeHandshake 0, .completeHandshake 0, .start false, .start false, .exit 0]

theorem connection_limits_two : ∃ l log,
    Sys.run (Sys.record (step ⟨2, 1⟩) (note ⟨2, 1⟩)) ({}, fun _ => none) rejectsTwo = some (l, log) ∧
    log 1 = some .rejected ∧ log 3 = some .rejected ∧ l.group.connections[(2 : Nat)]? = some true ∧
    l.group.stats.handshakes = 1 ∧ l.Limited ⟨2, 1⟩ log := by
  have hrun : ((Sys.run (Sys.record (step ⟨2, 1⟩) (note ⟨2, 1⟩)) ({}, fun _ => none) rejectsTwo).map fun x =>
      (x.2 1, x.2 3, x.1.group.connections[(2 : Nat)]?, x.1.group.stats.handshakes)) =
      some (some .rejected, some .rejected, some true, 1) := by decide +kernel
  obtain ⟨⟨l, log⟩, hl, he⟩ := Option.map_eq_some_iff.mp hrun
  obtain ⟨h1, he⟩ := Prod.mk.inj he
  obtain ⟨h3, he⟩ := Prod.mk.inj he
  obtain ⟨h2, hs⟩ := Prod.mk.inj he
  exact ⟨l, log, hl, h1, h3, h2, hs, connection_limits ⟨2, 1⟩ (by decide) rejectsTwo l log hl⟩

end Listener

end OrbMQ
