import OrbMQ.Server.Traffic

/-!
# Where the messages of a queue come from

The history variable `Flow` numbers the publications of every connection in the order in which it sent them. It
remembers which of them was retained last for a topic, and which publication each entry of a queue is from: through
the fan-out, or through the retained messages that a SUBSCRIBE has loaded. It also has the order in which the
entries of a session were transmitted for the first time.

`Server.Flows` says what a section of a handler adds to it. `Server.Traced` is what every run keeps: all entries of
all queues have a stamp, and their bytes are those of the publication that it names.
-/

namespace OrbMQ

open Go

/-! ## The history -/

/-- Publication number `index` of the connection `conn`; `live` if it came through the fan-out. -/
structure Stamp where
  live : Bool
  conn : Nat
  index : Nat
  deriving DecidableEq

structure Flow where
  /-- The publications of a connection; its Will comes last. -/
  sent : Nat → List PublishPacket := fun _ => []
  /-- The connection and the number of the publication that was retained last for a topic. -/
  source : Bytes → Option (Nat × Nat) := fun _ => none
  /-- What `source` was when the connection last loaded retained messages. -/
  loaded : Nat → Bytes → Option (Nat × Nat) := fun _ _ => none
  /-- Where the entries of a session are from. -/
  stamp : Nat → Nat → Option Stamp := fun _ _ => none
  /-- The entries of a session in the order of their first transmissions. -/
  firsts : Nat → List Nat := fun _ => []
  /-- No retained message was replaced or removed while a SUBSCRIBE had it loaded and not yet offered. -/
  quiet : Bool := true

/-- The DUP flag of a PUBLISH: bit 3 of its first byte. -/
def dupFlag (raw : Bytes) : Bool := raw.head?.any fun b : UInt8 => b &&& 8 ≠ 0

/-- The retained messages that a handler has loaded and not yet offered to its session. -/
def Pc.unoffered : Pc → List PublishPacket
  | .offering msgs _ _ => msgs
  | _ => []

/-- The action does not replace or remove a retained message that some handler has yet to offer. An update that is
refused does neither. -/
def Action.quiet (s : Server) : Action → Bool
  | .handler c _ => match (s.conns c).pc with
    | .publishing _ p .retaining =>
      decide (p.retain = true → s.broker.overLimit p = false →
        ∀ c' < s.accepted, ∀ m ∈ (s.conns c').pc.unoffered, m.topic ≠ p.topic)
    | _ => true
  | _ => true

namespace Flow

def send (c : Nat) (p : PublishPacket) (g : Flow) : Flow :=
  { g with sent := Function.update g.sent c (g.sent c ++ [p]) }

/-- The number of the publication at hand. -/
def current (c : Nat) (g : Flow) : Nat := (g.sent c).length - 1

def retain (c : Nat) (topic : Bytes) (g : Flow) : Flow :=
  { g with source := Function.update g.source topic (some (c, g.current c)) }

def load (c : Nat) (g : Flow) : Flow := { g with loaded := Function.update g.loaded c g.source }

/-- The entry `q` of the session `r` is from `st`. -/
def mark (r q : Nat) (st : Option Stamp) (g : Flow) : Flow :=
  { g with stamp := Function.update g.stamp r (Function.update (g.stamp r) q st) }

/-- The queue of `r` may have an entry more after the step. -/
def admission (s s' : Server) (r : Nat) (st : Option Stamp) (g : Flow) : Flow :=
  if (s'.state r).allocated = (s.state r).allocated then g else g.mark r (s.state r).allocated st

/-- A section of the handler of `c`, which goes from `pc` to `pc'`. -/
def handler (s s' : Server) (c : Nat) (pc pc' : Pc) (g : Flow) : Flow :=
  match pc with
  | .serving => match pc' with
    | .handling (.publish p) => g.send c p
    | _ => g
  | .ending _ => match pc' with
    | .publishing _ p _ => g.send c p
    | _ => g
  | .publishing _ p .retaining => match pc' with
    | .publishing _ _ .matching => if p.retain then g.retain c p.topic else g
    | _ => g
  | .publishing _ _ (.delivering _ _ (.admitMessage r _) _) =>
    g.admission s s' r (some ⟨true, c, g.current c⟩)
  | .replaying _ => g.load c
  | .offering (m :: _) _ _ => match (s.conns c).active with
    | some a => g.admission s s' a.session ((g.loaded c m.topic).map fun x => ⟨false, x.1, x.2⟩)
    | none => g
  | _ => g

/-- The consumer of `c` calls `Next`. -/
def consumer (s : Server) (c : Nat) (g : Flow) : Flow :=
  match (s.conns c).consumer, (s.conns c).active with
  | .selecting epoch, some a =>
    match (s.state a.session).next s.sessions.limits epoch s.sessions.totals, (s.state a.session).select epoch with
    | some (some d, _), some p =>
      if dupFlag d.data then g
      else { g with firsts := Function.update g.firsts a.session (g.firsts a.session ++ [p]) }
    | _, _ => g
  | _, _ => g

def note (cfg : Config) (s : Server) (a : Action) (g : Flow) : Flow :=
  match s.step cfg a with
  | none => g
  | some s' =>
    let g' := match a with
      | .handler c _ => g.handler s s' c (s.conns c).pc (s'.conns c).pc
      | .consumer c _ => g.consumer s c
      | _ => g
    { g' with quiet := g.quiet && a.quiet s }

theorem mark_stamp (g : Flow) (r q : Nat) (st : Option Stamp) (r' q' : Nat) :
    (g.mark r q st).stamp r' q' = if r' = r ∧ q' = q then st else g.stamp r' q' := by
  simp only [mark, Function.update_apply]
  by_cases hr : r' = r
  · subst hr
    simp [Function.update_apply]
  · simp [hr]

theorem send_sent (g : Flow) (c : Nat) (p : PublishPacket) (c' : Nat) :
    (g.send c p).sent c' = if c' = c then g.sent c ++ [p] else g.sent c' := Function.update_apply ..

theorem getElem?_mono {α : Type} {l l' : List α} (h : l <+: l') {n : Nat} {x : α} (hx : l[n]? = some x) :
    l'[n]? = some x := by
  obtain ⟨more, rfl⟩ := h
  rw [List.getElem?_append_left (List.getElem?_eq_some_iff.mp hx).1, hx]

/-- The retained message `m` is from the publication that `x` names. -/
def Holds (g : Flow) (x : Option (Nat × Nat)) (m : PublishPacket) : Prop :=
  ∃ c n p, x = some (c, n) ∧ (g.sent c)[n]? = some p ∧ p.retain = true ∧ m = { p with dup := false, retain := true }

theorem Holds.mono {g g' : Flow} {x : Option (Nat × Nat)} {m : PublishPacket} (h : g.Holds x m)
    (hsent : ∀ c, g.sent c <+: g'.sent c) : g'.Holds x m := by
  obtain ⟨c, n, p, hx, hp, hm⟩ := h
  exact ⟨c, n, p, hx, getElem?_mono (hsent c) hp, hm⟩

end Flow

/-! ## The places of a handler -/

namespace Pc

/-- The publication at hand. -/
def publication : Pc → Option PublishPacket
  | .handling (.publish p) => some p
  | .publishing _ p _ => some p
  | _ => none

/-- The fan-out of the publication at hand has yet to come to the session `r`. -/
def Ahead (r : Nat) : Pc → Prop
  | .handling (.publish _) | .publishing _ _ .locking | .publishing _ _ .retaining
  | .publishing _ _ .matching => True
  | .publishing _ _ (.visiting _ _ subs) => ∃ sub ∈ subs, sub.subscriber = r
  | .publishing _ _ (.delivering _ _ target subs) =>
    (∃ t, target = .admitMessage r t) ∨ ∃ sub ∈ subs, sub.subscriber = r
  | _ => False

/-- The publication at hand, if it was retained. -/
def kept : Pc → Option PublishPacket
  | .publishing _ p .matching | .publishing _ p (.visiting ..) | .publishing _ p (.delivering ..) =>
    if p.retain then some p else none
  | _ => none

/-- The handler goes on with the same publication and the same retained messages, or with less of them. -/
structure Stays (pc pc' : Pc) : Prop where
  publication : ∀ p, pc'.publication = some p → pc.publication = some p
  ahead : ∀ r, pc'.Ahead r → pc.Ahead r
  kept : ∀ p, pc'.kept = some p → pc.kept = some p
  unoffered : ∀ m ∈ pc'.unoffered, m ∈ pc.unoffered

/-- The handler has no message. -/
def inert : Pc → Bool
  | .handling (.publish _) | .publishing .. | .offering .. => false
  | _ => true

theorem Stays.refl (pc : Pc) : pc.Stays pc := ⟨fun _ h => h, fun _ h => h, fun _ h => h, fun _ h => h⟩

/-- The handler goes on with the publication at hand. -/
theorem Stays.publishing {origin : Origin} {p : PublishPacket} {stage stage' : PublishStage}
    (ahead : ∀ r, (Pc.publishing origin p stage').Ahead r → (Pc.publishing origin p stage).Ahead r)
    (kept : ∀ q, (Pc.publishing origin p stage').kept = some q → (Pc.publishing origin p stage).kept = some q) :
    (Pc.publishing origin p stage).Stays (.publishing origin p stage') :=
  ⟨fun _ h => h, ahead, kept, by simp [Pc.unoffered]⟩

theorem Stays.of_inert {pc' : Pc} (h : pc'.inert = true) (pc : Pc) : pc.Stays pc' := by
  cases pc' with
  | handling pkt =>
    cases pkt with
    | publish p => cases h
    | _ => exact ⟨nofun, nofun, nofun, nofun⟩
  | publishing | offering => cases h
  | _ => exact ⟨nofun, nofun, nofun, nofun⟩

end Pc

/-- The effect is neither on a queue nor on the retained messages. -/
def Effect.still : Effect → Bool
  | .call _ (.admitMessage ..) _ | .retain _ => false
  | _ => true

namespace Server

variable {cfg : Config} {s s' : Server} {c : Nat} {i : Input} {e : Effect} {f : Conn → Conn} {g : Flow}

/-- No queue and no retained message changes. -/
structure Still (s s' : Server) : Prop where
  unfed : ∀ r < s.sessions.allocated, (s'.state r).allocated = (s.state r).allocated
  retained : s'.broker.retained = s.broker.retained

/-- The session `r` gets an entry with the template `t`, and that is all. -/
structure Fed (s s' : Server) (r : Nat) (t : PublishTemplate) : Prop where
  known : r < s.sessions.allocated
  fed : ∃ now, s'.state r = (s.state r).append now t.raw t.packetIDOffset
  others : ∀ r' ≠ r, s'.state r' = s.state r'
  retained : s'.broker.retained = s.broker.retained

/-- What a section of the handler of `c` adds to the history. -/
inductive Flows (s s' : Server) (c : Nat) (g : Flow) (pc' : Pc) : Flow → Prop
  | moves : (s.conns c).pc.Stays pc' → Still s s' → Flows s s' c g pc' g
  | sends {p : PublishPacket} : (s.conns c).pc.publication = none →
      pc' = .handling (.publish p) ∨ pc' = .publishing .will p .locking → Still s s' →
      Flows s s' c g pc' (g.send c p)
  | retains {origin : Origin} {p : PublishPacket} : (s.conns c).pc = .publishing origin p .retaining →
      p.retain = true ∧ s.broker.overLimit p = false → pc' = .publishing origin p .matching →
      (∀ r < s.sessions.allocated, (s'.state r).allocated = (s.state r).allocated) →
      (∀ name : Bytes, s'.broker.retained[name]? = if p.topic = name then
        (if p.payload.length = 0 then none else some { p with dup := false, retain := true })
        else s.broker.retained[name]?) → Flows s s' c g pc' (g.retain c p.topic)
  | loads : pc'.publication = none → (∀ r, ¬ pc'.Ahead r) → pc'.kept = none →
      (∀ m ∈ pc'.unoffered, ∃ name : Bytes, s.broker.retained[name]? = some m) → Still s s' →
      Flows s s' c g pc' (g.load c)
  | live {origin : Origin} {p : PublishPacket} {cache : PublishDeliveryCache} {err err' : Option Err} {r : Nat}
      {t : PublishTemplate} {subs : List (Subscription Nat)} :
      (s.conns c).pc = .publishing origin p (.delivering cache err (.admitMessage r t) subs) →
      pc' = .publishing origin p (.visiting cache err' subs) → Fed s s' r t →
      Flows s s' c g pc' (g.mark r (s.state r).allocated (some ⟨true, c, g.current c⟩))
  | replay {m : PublishPacket} {rest : List PublishPacket} {code : UInt8} {entries : List (Bytes × UInt8)}
      {a : ActiveConnection} {t : PublishTemplate} : (s.conns c).pc = .offering (m :: rest) code entries →
      (s.conns c).active = some a → pc' = .offering rest code entries ∨ pc' = .resuming false →
      deliveryQoS m.qos code = 1 → newPublishTemplate (newOutboundPublish m 1) = .ok t → Fed s s' a.session t →
      Flows s s' c g pc' (g.mark a.session (s.state a.session).allocated
        ((g.loaded c m.topic).map fun x => ⟨false, x.1, x.2⟩))

theorem Touches.still (ht : s.Touches c e) (he : e.still = true) : Still s ((e.apply c s).setConn c f) := by
  have hret : ∀ p, e ≠ .retain p := by
    rintro p rfl
    cases he
  refine ⟨fun r hr => ?_, Effect.retained_eq hret c s⟩
  have hl := ht.later
  refine Nat.le_antisymm (Nat.le_of_not_lt fun hlt => ?_) (hl.keeps r hr).allocated
  obtain ⟨-, hp⟩ | ⟨now, data, off, res, rfl, -⟩ := ht.entry (Nat.lt_of_lt_of_le hr hl.allocated) hlt
  · exact Nat.lt_irrefl _ hp
  · cases he

/-- An admission feeds a queue, or counts a drop. -/
theorem admission_fed {r : Nat} (hr : r < s.sessions.allocated) {now : Time} {t : PublishTemplate}
    {res : State × Snapshot} (hop : (StateOp.admitMessage now t.raw t.packetIDOffset).run s.sessions.limits
      (s.state r) s.sessions.totals = some res) (hsessions : s'.sessions = (s.setSession r res).sessions)
    (hret : s'.broker.retained = s.broker.retained) : Still s s' ∨ Fed s s' r t := by
  have hstate : ∀ r', s'.state r' = if r' = r then res.1 else s.state r' := fun r' => by
    rw [← state_setSession, state, hsessions]
    rfl
  have hstill : res.1.allocated = (s.state r).allocated → Still s s' := fun h => by
    refine ⟨fun r' _ => ?_, hret⟩
    rw [hstate]
    split
    · rename_i e
      rw [h, e]
    · rfl
  have hres : (s.state r).admitMessage s.sessions.limits now t.raw t.packetIDOffset s.sessions.totals =
    (((s.state r).admitMessage s.sessions.limits now t.raw t.packetIDOffset s.sessions.totals).1, res) :=
    Prod.ext rfl (Option.some.inj hop)
  obtain ⟨e, -⟩ | ⟨-, -, ⟨d, -, -, e, -⟩ | ⟨-, -, e, -⟩⟩ := State.admit_cases hres
  · exact .inl (hstill (by rw [e]))
  · exact .inl (hstill (by rw [e]))
  · refine .inr ⟨hr, ⟨now, ?_⟩, fun r' hne => ?_, hret⟩
    · rw [hstate, if_pos rfl, e]
    · rw [hstate, if_neg hne]

theorem Still.admission (h : Still s s') {r : Nat} (hr : r < s.sessions.allocated) (st : Option Stamp) :
    g.admission s s' r st = g := if_pos (h.unfed r hr)

theorem Fed.allocated {r : Nat} {t : PublishTemplate} (h : Fed s s' r t) :
    (s'.state r).allocated = (s.state r).allocated + 1 := by
  obtain ⟨now, e⟩ := h.fed
  rw [e]
  rfl

theorem Fed.admission {r : Nat} {t : PublishTemplate} (h : Fed s s' r t) (st : Option Stamp) :
    g.admission s s' r st = g.mark r (s.state r).allocated st := by
  refine if_neg ?_
  rw [h.allocated]
  exact Nat.succ_ne_self _

/-! ## One section -/

theorem published_inert (origin : Origin) (p : PublishPacket) (err : Option Err) :
    (published origin p err).inert = true := by
  unfold published
  repeat' split
  all_goals rfl

theorem sendPacket_inert (k : Conn) (pkt : Packet) (reply : Reply) : (k.sendPacket pkt reply).pc.inert = true := by
  obtain ⟨client, pc, e, -, ⟨rfl, -⟩ | ⟨_, _, rfl, -⟩⟩ := k.sendPacket_sends pkt reply <;> rw [e]
  · cases reply <;> rfl
  · rfl

/-- A retained message that is offered and does not get into the queue. -/
theorem flows_unqueued (hs : s.Sound cfg) {m : PublishPacket} {rest : List PublishPacket} {code : UInt8}
    {entries : List (Bytes × UInt8)} (hpc : (s.conns c).pc = .offering (m :: rest) code entries) {pc' : Pc}
    (hpc' : pc' = .offering rest code entries ∨ pc' = .resuming false) (hst : Still s s') :
    Flows s s' c g pc' (g.handler s s' c (.offering (m :: rest) code entries) pc') := by
  have hstays : (s.conns c).pc.Stays pc' := by
    rw [hpc]
    obtain rfl | rfl := hpc'
    · exact ⟨nofun, nofun, nofun, fun _ hm => .tail _ hm⟩
    · exact .of_inert rfl _
  simp only [Flow.handler]
  split
  · rename_i a ha
    rw [hst.admission ((hs.refines.conns c).session a ha)]
    exact .moves hstays hst
  · exact .moves hstays hst

theorem Goes.flows (hs : s.Sound cfg) {pc pc' : Pc} (hpc : (s.conns c).pc = pc) (hst : Still s s') (hg : Goes cfg s c i pc pc') :
    Flows s s' c g pc' (g.handler s s' c pc pc') := by
  have hinert : ∀ {pc'}, pc'.inert = true → Flows s s' c g pc' g := fun h => .moves (.of_inert h _) hst
  have hstays : ∀ {pc'}, pc.Stays pc' → Flows s s' c g pc' g := fun h => .moves (hpc ▸ h) hst
  cases hg with
  | publish => exact hstays ⟨fun _ h => h, fun _ _ => trivial, nofun, nofun⟩
  | replayed | refusedEntry => exact .loads rfl (fun _ h => h) rfl nofun hst
  | load =>
    refine .loads rfl (fun _ h => h) rfl (fun m hm => ?_) hst
    obtain ⟨name, -, hget⟩ := Broker.mem_retainedMatching hm
    exact ⟨name, hget⟩
  | unencoded => exact flows_unqueued hs hpc (.inr rfl) hst
  | lock => exact hstays (.publishing (fun _ _ => trivial) (by rintro _ ⟨⟩))
  | pass hret =>
    simp only [Flow.handler, hret]
    exact hstays (.publishing (fun _ _ => trivial) fun _ h => by simp [Pc.kept, hret] at h)
  | matched => exact hstays (.publishing (fun _ _ => trivial) fun _ h => h)
  | visited => exact hstays (.publishing (by rintro _ ⟨⟩) (by rintro _ ⟨⟩))
  | skip | failed =>
    refine hstays (.publishing (fun r h => ?_) fun _ h => h)
    obtain ⟨x, hx, e⟩ := h
    exact ⟨x, .tail _ hx, e⟩
  | send =>
    refine hstays (.publishing (fun r h => ?_) fun _ h => h)
    obtain ⟨_, e⟩ | ⟨x, hx, e⟩ := h
    · cases e
    · exact ⟨x, .tail _ hx, e⟩
  | queue =>
    refine hstays (.publishing (fun r h => ?_) fun _ h => h)
    obtain ⟨_, e⟩ | ⟨x, hx, e⟩ := h
    · cases e
      exact ⟨_, .head _, rfl⟩
    · exact ⟨x, .tail _ hx, e⟩
  | @returned origin p err => exact hinert (published_inert origin p err)
  | @written channel reply => exact hinert (by cases reply <;> rfl)
  | @unwritten channel reply => exact hinert (by cases reply <;> rfl)
  | will => exact .sends (by rw [hpc]; rfl) (.inr rfl) hst
  | _ => exact hinert rfl

/-- A retained message that is admitted to the session of its handler, or dropped. -/
theorem flows_offered (hs : s.Sound cfg) {a : ActiveConnection} {m : PublishPacket} {rest : List PublishPacket}
    {code : UInt8} {entries : List (Bytes × UInt8)} {t : PublishTemplate}
    (hpc : (s.conns c).pc = .offering (m :: rest) code entries) (ha : (s.conns c).active = some a)
    (hq : deliveryQoS m.qos code = 1) (ht : newPublishTemplate (newOutboundPublish m 1) = .ok t) {pc' : Pc}
    (hpc' : pc' = .offering rest code entries ∨ pc' = .resuming false)
    (hfed : Still s s' ∨ Fed s s' a.session t) :
    Flows s s' c g pc' (g.handler s s' c (.offering (m :: rest) code entries) pc') := by
  obtain hst | hfed := hfed
  · exact flows_unqueued hs hpc hpc' hst
  · simp only [Flow.handler, ha]
    rw [hfed.admission]
    exact .replay hpc ha hpc' hq ht hfed

theorem Calls.flows (hs : s.Sound cfg) {pc pc' : Pc} {a : ActiveConnection} {op : StateOp} {res : State × Snapshot}
    (hpc : (s.conns c).pc = pc) (ha : (s.conns c).active = some a) (hcall : Calls cfg s i a.session pc op pc')
    (hop : op.run s.sessions.limits (s.state a.session) s.sessions.totals = some res)
    (hsessions : s'.sessions = (s.setSession a.session res).sessions)
    (hret : s'.broker.retained = s.broker.retained)
    (hst : (Effect.call a.session op res).still = true → Still s s') :
    Flows s s' c g pc' (g.handler s s' c pc pc') := by
  have hinert : ∀ {pc'}, pc'.inert = true → Still s s' → Flows s s' c g pc' g :=
    fun h hst => .moves (.of_inert h _) hst
  have hlt := (hs.refines.conns c).session a ha
  cases hcall with
  | offer hq ht =>
    exact flows_offered hs hpc ha hq ht (.inl rfl)
      (admission_fed hlt hop hsessions hret)
  | offerFails hq ht =>
    exact flows_offered hs hpc ha hq ht (.inr rfl)
      (admission_fed hlt hop hsessions hret)
  | @resume ok => exact hinert (by cases ok <;> rfl) (hst rfl)
  | _ => exact hinert rfl (hst rfl)

/-- **What a handler adds to the history.** -/
theorem Turn.flows (hs : s.Sound cfg) (ht : Turn cfg s c i e f) :
    Flows s ((e.apply c s).setConn c f) c g (f ((e.apply c s).conns c)).pc
      (g.handler s ((e.apply c s).setConn c f) c (s.conns c).pc (f ((e.apply c s).conns c)).pc) := by
  have hstill : e.still = true → Still s ((e.apply c s).setConn c f) := (ht.touches hs.refines).still
  generalize hs' : (e.apply c s).setConn c f = s' at hstill
  -- Most sections have no message.
  have hinert : ∀ {pc' : Pc}, pc'.inert = true → g.handler s s' c (s.conns c).pc pc' = g → Still s s' →
      Flows s s' c g pc' (g.handler s s' c (s.conns c).pc pc') := fun h he hst => by
    rw [he]
    exact .moves (.of_inert h _) hst
  cases ht with
  | goes hpc hg =>
    rw [hpc]
    exact hg.flows hs hpc (hstill rfl)
  | handshake hpc =>
    refine hinert ?_ (by rw [hpc]; rfl) (hstill rfl)
    show ((s.conns c).handshake cfg i).pc.inert = true
    obtain e | ⟨_, -, e⟩ := (s.conns c).handshake_cases cfg i <;> rw [e] <;> rfl
  | reject hpc => exact hinert (sendPacket_inert _ _ _) (by rw [hpc]; rfl) (hstill rfl)
  | denied hpc hcase =>
    obtain ⟨p, rfl, rfl⟩ | ⟨p, codes, sub, rest, rfl, rfl⟩ := hcase <;>
      exact hinert rfl (by rw [hpc]; rfl) (hstill rfl)
  | authenticated hpc | takeOver hpc | closePrevious hpc | begin hpc | route hpc | unroute hpc | closeClient hpc
  | release hpc | acquire hpc | ready hpc | beginClosing hpc =>
    exact hinert rfl (by rw [hpc]; rfl) (hstill rfl)
  | unopened hpc => exact hinert (by dsimp only; split <;> rfl) (by rw [hpc]; rfl) (hstill rfl)
  | sends hpc hsend =>
    exact hinert (sendPacket_inert _ _ _) (by rw [hpc]; cases hsend <;> rfl) (hstill rfl)
  | serve hpc =>
    have hst := hstill rfl
    show Flows s s' c g ((s.conns c).serve cfg i).pc (g.handler s s' c (s.conns c).pc ((s.conns c).serve cfg i).pc)
    obtain e | ⟨pkt, -, e⟩ := (s.conns c).serve_cases cfg i <;> rw [e]
    · exact hinert rfl (by rw [hpc]; rfl) hst
    · cases pkt with
      | publish p =>
        rw [hpc]
        exact .sends (by rw [hpc]; rfl) (.inl rfl) hst
      | _ => exact hinert rfl (by rw [hpc]; rfl) hst
  | calls hpc ha hcall hop =>
    rw [hpc]
    exact hcall.flows hs hpc ha hop (by rw [← hs']; rfl) (by rw [← hs']; rfl) hstill
  | offer hpc ha _ _ hcase =>
    rw [hpc]
    exact flows_unqueued hs hpc hcase (hstill rfl)
  | @retain origin p hpc hret =>
    have hsame : s'.sessions = s.sessions := by rw [← hs']; rfl
    have hunfed : ∀ r < s.sessions.allocated, (s'.state r).allocated = (s.state r).allocated := fun r _ => by
      rw [state, hsame]
      rfl
    have hbroker : s'.broker = (s.broker.updateRetained p).2 := by rw [← hs']; rfl
    rw [hpc]
    rcases hu : s.broker.updateRetained p with ⟨res, b⟩
    rw [hu] at hbroker
    obtain ⟨-, ⟨rfl, hb⟩ | ⟨rfl, hb⟩⟩ := Broker.updateRetained_cases hu
    · exact .moves (hpc ▸ .publishing (by rintro _ ⟨⟩) (by rintro _ ⟨⟩)) ⟨hunfed, by rw [hbroker, hb]⟩
    · simp only [Flow.handler, hret, if_true]
      exact .retains hpc ⟨hret, Broker.overLimit_of_ok hu⟩ rfl hunfed (by rw [hbroker]; exact hb)
  | @enqueue origin p cache err o raw subs hpc =>
    have hst := hstill rfl
    rw [hpc]
    cases ((s.conns o).client.enqueue raw).1 with
    | error e =>
      refine .moves (hpc ▸ .publishing (fun r h => ?_) fun _ h => h) hst
      obtain ⟨_, e⟩ | h := h
      · cases e
      · exact .inr h
    | ok _ => exact .moves (hpc ▸ .publishing (fun _ h => .inr h) fun _ h => h) hst
  | close hpc =>
    rw [hpc]
    exact .moves (hpc ▸ .publishing (fun _ h => .inr h) fun _ h => h) (hstill rfl)
  | @admission origin p cache err r t subs result res hpc hres =>
    have hchecked := (hs.refines.conns c).checked
    rw [hpc] at hchecked
    rw [hpc]
    have hcase : Still s s' ∨ Fed s s' r t :=
      admission_fed hchecked.2 (by rw [StateOp.run, hres]) (by rw [← hs']; rfl) (by rw [← hs']; rfl)
    obtain hst | hfed := hcase
    · simp only [Flow.handler]
      rw [hst.admission hchecked.2]
      exact .moves (hpc ▸ .publishing (fun _ h => .inr h) fun _ h => h) hst
    · simp only [Flow.handler]
      rw [hfed.admission]
      exact .live hpc rfl hfed

/-! ## One step -/

theorem Still.of_eq (h : s'.sessions = s.sessions) (hb : s'.broker = s.broker) : Still s s' :=
  ⟨fun r _ => by rw [state, h]; rfl, by rw [hb]⟩

/-- A step is a section of a handler, or changes nothing but the first transmissions. -/
theorem step_flows (hs : s.Sound cfg) {a : Action} (hstep : s.step cfg a = some s') :
    (∃ c i g', a = .handler c i ∧ Flows s s' c g (s'.conns c).pc g' ∧
      (∀ c' ≠ c, (s'.conns c').pc = (s.conns c').pc) ∧
      Flow.note cfg s a g = { g' with quiet := g.quiet && a.quiet s }) ∨
    ((∀ c, (s'.conns c).pc = (s.conns c).pc) ∧ Still s s' ∧
      ∃ firsts, Flow.note cfg s a g = { g with firsts, quiet := g.quiet && a.quiet s }) := by
  simp only [Flow.note, hstep]
  have hconn := step_conn hs.refines hstep
  cases step_moves hs.refines hstep with
  | @handler c i e f _ ht =>
    have hpc : (((e.apply c s).setConn c f).conns c).pc = (f ((e.apply c s).conns c)).pc := by
      rw [conns_setConn, if_pos rfl]
    refine .inl ⟨c, i, _, rfl, ?_, fun c' hne => ?_, rfl⟩
    · dsimp only
      rw [hpc]
      exact ht.flows hs
    · rw [conns_setConn, if_neg hne]
      exact (e.peer c s c').pc
  | @consumer c i e f _ ht =>
    have hst : Still s ((e.apply c s).setConn c f) := (ht.touches hs.refines).still (by cases ht <;> rfl)
    refine .inr ⟨fun c' => ?_, hst, (g.consumer s c).firsts, ?_⟩
    · have hm := hconn c'
      generalize ((e.apply c s).setConn c f).conns c' = k at hm
      cases hm with
      | consumer ht => cases ht <;> rfl
      | same => rfl
    · dsimp only
      unfold Flow.consumer
      repeat' split
      all_goals rfl
  | sweep =>
    refine .inr ⟨fun _ => rfl, ⟨fun r hr => ?_, Broker.unsubscribesAll_retained _ _⟩, g.firsts, rfl⟩
    exact ((Store.Turnover.expire s.sessions _ _).kept r hr).allocated
  | accept => exact .inr ⟨fun _ => rfl, .of_eq rfl rfl, g.firsts, rfl⟩
  | write | writerExit =>
    refine .inr ⟨fun c' => ?_, .of_eq rfl rfl, g.firsts, rfl⟩
    rw [conns_setConn]
    split
    · rename_i e
      subst e
      rfl
    · rfl

theorem Flows.sent {pc' : Pc} {g' : Flow} (h : Flows s s' c g pc' g') (c' : Nat) : g.sent c' <+: g'.sent c' := by
  cases h with
  | @sends p =>
    rw [Flow.send_sent]
    split
    · rename_i e
      exact e ▸ List.prefix_append _ _
    · exact List.prefix_rfl
  | _ => exact List.prefix_rfl

/-! ## Every run -/

/-- The history is complete and right. -/
structure Traced (s : Server) (g : Flow) : Prop where
  /-- An entry has the bytes of the publication that its stamp names. -/
  stamps : ∀ r q st, g.stamp r q = some st → r < s.sessions.allocated ∧ q < (s.state r).allocated ∧
    ∃ p, (g.sent st.conn)[st.index]? = some p ∧ (st.live = false → p.retain = true) ∧
      TemplateOf ⟨((s.state r).heap q).data, ((s.state r).heap q).packetIDOffset⟩ (newOutboundPublish p 1)
  complete : ∀ r < s.sessions.allocated, ∀ q < (s.state r).allocated, g.stamp r q ≠ none
  current : ∀ c p, (s.conns c).pc.publication = some p → (g.sent c).getLast? = some p
  retained : ∀ (name : Bytes) m, s.broker.retained[name]? = some m → g.Holds (g.source name) m
  loaded : ∀ c, ∀ m ∈ (s.conns c).pc.unoffered, g.Holds (g.loaded c m.topic) m

theorem Traced.init (retainedLimits : RetainedLimits) (limits : Limits) :
    Traced { broker := { limits := retainedLimits }, sessions := { limits } } {} where
  stamps _ _ _ h := nomatch h
  complete r hr := (Nat.not_lt_zero r hr).elim
  current _ _ h := nomatch h
  retained _ _ h := by simp at h
  loaded _ _ h := nomatch h

theorem Traced.at_hand (h : s.Traced g) {p : PublishPacket} (hp : (s.conns c).pc.publication = some p) :
    (g.sent c)[g.current c]? = some p := by
  rw [Flow.current, ← List.getLast?_eq_getElem?]
  exact h.current c p hp

/-- What was in a queue is there with the same bytes. -/
theorem Traced.stamps_old (h : s.Traced g) (hl : Later s s') {g' : Flow} (hsent : ∀ c, g.sent c <+: g'.sent c)
    {r q : Nat} {st : Stamp} (hst : g.stamp r q = some st) :
    r < s'.sessions.allocated ∧ q < (s'.state r).allocated ∧
      ∃ p, (g'.sent st.conn)[st.index]? = some p ∧ (st.live = false → p.retain = true) ∧
        TemplateOf ⟨((s'.state r).heap q).data, ((s'.state r).heap q).packetIDOffset⟩ (newOutboundPublish p 1) := by
  obtain ⟨hr, hq, p, hp, hret, ht⟩ := h.stamps r q st hst
  have hk := hl.keeps r hr
  refine ⟨Nat.lt_of_lt_of_le hr hl.allocated, Nat.lt_of_lt_of_le hq hk.allocated, p,
    Flow.getElem?_mono (hsent _) hp, hret, ?_⟩
  rw [hk.data q hq, hk.offset q hq]
  exact ht

/-- The new entry of a queue. -/
theorem Fed.entry {r : Nat} {t : PublishTemplate} (hf : Fed s s' r t) :
    (⟨((s'.state r).heap (s.state r).allocated).data,
      ((s'.state r).heap (s.state r).allocated).packetIDOffset⟩ : PublishTemplate) = t := by
  obtain ⟨now, e⟩ := hf.fed
  rw [e]
  simp only [State.append, State.notifyLocked, Function.update_self]

/-- The template that a handler admits to its session. -/
theorem Sound.replay (hs : s.Sound cfg) {m : PublishPacket} {rest : List PublishPacket} {code : UInt8}
    {entries : List (Bytes × UInt8)} (hpc : (s.conns c).pc = .offering (m :: rest) code entries)
    (hq : deliveryQoS m.qos code = 1) {t : PublishTemplate}
    (ht : newPublishTemplate (newOutboundPublish m 1) = .ok t) : TemplateOf t (newOutboundPublish m 1) := by
  have hplace := (hs.conns c).place
  rw [hpc] at hplace
  obtain ⟨hm, -⟩ := hplace.2.2 m (.head _)
  obtain ⟨t', ht', hspec⟩ := newPublishTemplate_spec hm.publishable (hq ▸ (deliveryQoS_le m.qos code).1)
  cases ht.symm.trans ht'
  exact hspec

theorem Traced.stamps_step (hs : s.Sound cfg) (h : s.Traced g) (hl : Later s s') {pc' : Pc} {g' : Flow}
    (hf : Flows s s' c g pc' g') (r q : Nat) (st : Stamp) (hst : g'.stamp r q = some st) :
    r < s'.sessions.allocated ∧ q < (s'.state r).allocated ∧
      ∃ p, (g'.sent st.conn)[st.index]? = some p ∧ (st.live = false → p.retain = true) ∧
        TemplateOf ⟨((s'.state r).heap q).data, ((s'.state r).heap q).packetIDOffset⟩ (newOutboundPublish p 1) := by
  have hold : g.stamp r q = some st → _ := h.stamps_old hl hf.sent
  have hnew : ∀ {t}, Fed s s' r t → r < s'.sessions.allocated ∧ (s.state r).allocated < (s'.state r).allocated :=
    fun hfed => ⟨Nat.lt_of_lt_of_le hfed.known hl.allocated, by rw [hfed.allocated]; exact Nat.lt_succ_self _⟩
  cases hf with
  | @live origin p cache err err' r₀ t subs hpc hpc' hfed =>
    rw [Flow.mark_stamp] at hst
    split at hst
    · rename_i e
      obtain ⟨rfl, rfl⟩ := e
      cases hst
      have hplace := (hs.conns c).place
      rw [hpc] at hplace
      obtain ⟨hr, hq⟩ := hnew hfed
      refine ⟨hr, hq, p, h.at_hand (by rw [hpc]; rfl), nofun, ?_⟩
      rw [hfed.entry]
      exact hplace.2.2.2.2.1
    · exact hold hst
  | @replay m rest code entries a t hpc ha hpc' hqos ht hfed =>
    rw [Flow.mark_stamp] at hst
    split at hst
    · rename_i e
      obtain ⟨rfl, rfl⟩ := e
      obtain ⟨c', n, p, hload, hp, hret, hm⟩ := h.loaded c m (by rw [hpc]; exact .head _)
      rw [hload] at hst
      cases hst
      obtain ⟨hr, hq⟩ := hnew hfed
      refine ⟨hr, hq, p, hp, fun _ => hret, ?_⟩
      -- The retained message and the publication give the same outbound packet.
      have hsame : newOutboundPublish m 1 = newOutboundPublish p 1 := by simp [newOutboundPublish, hm, hret]
      rw [hfed.entry, ← hsame]
      exact hs.replay hpc hqos ht
    · exact hold hst
  | _ => exact hold hst

theorem Traced.complete_step (h : s.Traced g) (hl : Later s s') {pc' : Pc} {g' : Flow} (hf : Flows s s' c g pc' g')
    (r : Nat) (hr : r < s'.sessions.allocated) (q : Nat) (hq : q < (s'.state r).allocated) :
    g'.stamp r q ≠ none := by
  have hknown : r < s.sessions.allocated := by
    by_contra hn
    rw [hl.fresh r (Nat.not_lt.mp hn) hr] at hq
    exact Nat.not_lt_zero q hq
  have hunfed : (s'.state r).allocated = (s.state r).allocated → g.stamp r q ≠ none := fun e =>
    h.complete r hknown q (e ▸ hq)
  have hmark : ∀ {r₀ t} {st : Option Stamp}, Fed s s' r₀ t → st ≠ none →
      (g.mark r₀ (s.state r₀).allocated st).stamp r q ≠ none := by
    intro r₀ t st hfed hst
    rw [Flow.mark_stamp]
    split
    · exact hst
    · rename_i hne
      by_cases e : r = r₀
      · subst e
        rw [hfed.allocated] at hq
        have hlt : q < (s.state r).allocated := by
          have : q ≠ (s.state r).allocated := fun e => hne ⟨rfl, e⟩
          omega
        exact h.complete r hknown q hlt
      · exact hunfed (by rw [hfed.others r e])
  cases hf with
  | moves _ hst => exact hunfed (hst.unfed r hknown)
  | sends _ _ hst => exact hunfed (hst.unfed r hknown)
  | retains _ _ _ hun => exact hunfed (hun r hknown)
  | loads _ _ _ _ hst => exact hunfed (hst.unfed r hknown)
  | live _ _ hfed => exact hmark hfed nofun
  | @replay m rest code entries a t hpc _ _ _ _ hfed =>
    obtain ⟨c', n, p, hload, -⟩ := h.loaded c m (by rw [hpc]; exact .head _)
    exact hmark hfed (by rw [hload]; nofun)

/-- The publication at hand is the last one that was sent. -/
theorem Traced.current_step (h : s.Traced g) {pc' : Pc} {g' : Flow} (hf : Flows s s' c g pc' g') (p : PublishPacket)
    (hp : pc'.publication = some p) : (g'.sent c).getLast? = some p := by
  cases hf with
  | moves hstays => exact h.current c p (hstays.publication p hp)
  | @sends p' _ hpc' =>
    have e : p' = p := by obtain rfl | rfl := hpc' <;> exact Option.some.inj hp
    rw [Flow.send_sent, if_pos rfl, List.getLast?_concat, e]
  | retains hpc _ hpc' =>
    subst hpc'
    exact h.current c p (by rw [hpc]; exact hp)
  | loads hnone =>
    rw [hnone] at hp
    cases hp
  | live hpc hpc' =>
    subst hpc'
    exact h.current c p (by rw [hpc]; exact hp)
  | replay _ _ hpc' => obtain rfl | rfl := hpc' <;> cases hp

theorem Traced.retained_step (h : s.Traced g) {pc' : Pc} {g' : Flow} (hf : Flows s s' c g pc' g') (name : Bytes)
    (m : PublishPacket) (hm : s'.broker.retained[name]? = some m) : g'.Holds (g'.source name) m := by
  have hold : s'.broker.retained = s.broker.retained → g.Holds (g.source name) m := fun e =>
    h.retained name m (e ▸ hm)
  cases hf with
  | moves _ hst => exact hold hst.retained
  | sends hnone hpc' hst =>
    exact (hold hst.retained).mono (Flows.sends (g := g) hnone hpc' hst).sent
  | @retains origin p hpc hret hpc' _ hget =>
    rw [hget] at hm
    split at hm
    · rename_i e
      subst e
      split at hm <;> cases hm
      exact ⟨c, _, p, Function.update_self .., h.at_hand (by rw [hpc]; rfl), hret.1, rfl⟩
    · rename_i hne
      have hsource : (g.retain c p.topic).source name = g.source name := Function.update_of_ne (Ne.symm hne) _ _
      rw [hsource]
      exact h.retained name m hm
  | loads _ _ _ _ hst => exact hold hst.retained
  | live _ _ hfed => exact hold hfed.retained
  | replay _ _ _ _ _ hfed => exact hold hfed.retained

theorem Traced.loaded_step (hs : s.Sound cfg) (h : s.Traced g) {pc' : Pc} {g' : Flow} (hf : Flows s s' c g pc' g')
    (m : PublishPacket) (hm : m ∈ pc'.unoffered) : g'.Holds (g'.loaded c m.topic) m := by
  cases hf with
  | moves hstays => exact h.loaded c m (hstays.unoffered m hm)
  | sends _ hpc' => obtain rfl | rfl := hpc' <;> cases hm
  | retains _ _ hpc' =>
    subst hpc'
    cases hm
  | loads _ _ _ hload =>
    obtain ⟨name, hget⟩ := hload m hm
    obtain ⟨rfl, -⟩ := hs.retained name m hget
    have hloaded : (g.load c).loaded c = g.source := Function.update_self ..
    rw [hloaded]
    exact h.retained _ m hget
  | live _ hpc' =>
    subst hpc'
    cases hm
  | replay hpc _ hpc' =>
    obtain rfl | rfl := hpc'
    · exact h.loaded c m (by rw [hpc]; exact .tail _ hm)
    · cases hm

/-- The other connections do not notice what a handler adds. -/
theorem Flows.others {pc' : Pc} {g' : Flow} (hf : Flows s s' c g pc' g') {c' : Nat} (hc : c' ≠ c) :
    g'.sent c' = g.sent c' ∧ g'.loaded c' = g.loaded c' := by
  cases hf with
  | sends => exact ⟨Function.update_of_ne hc _ _, rfl⟩
  | loads => exact ⟨rfl, Function.update_of_ne hc _ _⟩
  | _ => exact ⟨rfl, rfl⟩

theorem Traced.step (hs : s.Sound cfg) (h : s.Traced g) {a : Action} (hstep : s.step cfg a = some s') :
    s'.Traced (Flow.note cfg s a g) := by
  have hl := step_later hs.refines hstep
  obtain ⟨c, i, g', rfl, hf, hother, e⟩ | ⟨hpc, hst, firsts, e⟩ := step_flows (g := g) hs hstep <;> rw [e]
  · have hstamps := h.stamps_step hs hl hf
    have hcomplete := h.complete_step hl hf
    have hretained := h.retained_step hf
    refine ⟨hstamps, hcomplete, fun c' p hp => ?_, hretained, fun c' m hm => ?_⟩
    · by_cases hc : c' = c
      · subst hc
        exact h.current_step hf p hp
      · rw [hother c' hc] at hp
        exact (hf.others hc).1 ▸ h.current c' p hp
    · by_cases hc : c' = c
      · subst hc
        exact h.loaded_step hs hf m hm
      · rw [hother c' hc] at hm
        have hold := (h.loaded c' m hm).mono hf.sent
        exact (hf.others hc).2 ▸ hold
  · refine ⟨fun r q st hq => h.stamps_old hl (fun _ => List.prefix_rfl) hq, fun r hr q hq => ?_, fun c p hp => ?_,
      fun name m hm => ?_, fun c m hm => ?_⟩
    · exact h.complete_step hl (c := 0) (.moves (.refl _) hst) r hr q hq
    · exact h.current c p (hpc c ▸ hp)
    · exact h.retained name m (hst.retained ▸ hm)
    · exact h.loaded c m (hpc c ▸ hm)

theorem Recorded.traced (h : Recorded cfg (Flow.note cfg) {} s g) : s.Traced g :=
  h.invariant Traced.init fun _ _ _ _ hr hi hstep => hi.step hr.reachable.sound hstep

/-- Every entry that the session `r` ever had is from a publication, and has its bytes. -/
def Accounted (s : Server) (g : Flow) (r : Nat) : Prop :=
  r < s.sessions.allocated → ∀ q < (s.state r).allocated, ∃ st p, g.stamp r q = some st ∧
    (g.sent st.conn)[st.index]? = some p ∧
    TemplateOf ⟨((s.state r).heap q).data, ((s.state r).heap q).packetIDOffset⟩ (newOutboundPublish p 1)

theorem Traced.accounted (h : s.Traced g) (r : Nat) : s.Accounted g r := fun hr q hq => by
  obtain ⟨st, hst⟩ := Option.ne_none_iff_exists'.mp (h.complete r hr q hq)
  obtain ⟨-, -, p, hp, -, ht⟩ := h.stamps r q st hst
  exact ⟨st, p, hst, hp, ht⟩

end Server

end OrbMQ
