import OrbMQ.Lib.Map
import OrbMQ.Protocol.Packet

/-!
# The message queue of a session (`internal/session/queue.go`)

Every method of a `State` runs under the mutex of its store and touches the state itself, the
store's totals and, read-only, its limits. So a method is a function of those three.

* An `*entry` is a number, in the order of the allocations, and `heap` says what it points to.
  `entries` and `inflight` hold such pointers, as in the source.
* The one-slot channel `changed` is a flag.
* The search for a free packet identifier has no bound in the source. `freePacketID` gives up after
  65536 rounds, in which it has seen every identifier, and `next` is `none` then: the call does not
  return.
-/

namespace OrbMQ

open Go

/-- A `time.Time` or a `time.Duration`, in nanoseconds. -/
abbrev Time := Int

structure Limits where
  maxSessions : Int
  maxSubscriptionsPerSession : Int
  maxSubscriptionsGlobal : Int
  maxFilterBytes : Int
  maxFilterLevels : Int
  offlineTTL : Int := 0
  cleanupInterval : Int
  maxPendingMessagesPerSession : Int
  maxPendingBytesPerSession : Int
  maxPendingMessagesGlobal : Int
  maxPendingBytesGlobal : Int
  maxInflightMessagesPerSession : Int
deriving DecidableEq, Repr

def defaultLimits : Limits where
  maxSessions := 10000
  maxSubscriptionsPerSession := 1000
  maxSubscriptionsGlobal := 100000
  maxFilterBytes := 4096
  maxFilterLevels := 64
  cleanupInterval := 60000000000
  maxPendingMessagesPerSession := 1000
  maxPendingBytesPerSession := 16 * 2 ^ 20
  maxPendingMessagesGlobal := 100000
  maxPendingBytesGlobal := 256 * 2 ^ 20
  maxInflightMessagesPerSession := 20

def Limits.validate (l : Limits) : Except Err Unit :=
  if l.maxSessions ≤ 0 ∨ l.maxSubscriptionsPerSession ≤ 0 ∨ l.maxSubscriptionsGlobal ≤ 0 ∨
      l.maxFilterBytes ≤ 0 ∨ l.maxFilterLevels ≤ 0 then
    .error (.new "resource limits must be positive")
  else if l.maxSubscriptionsPerSession > l.maxSubscriptionsGlobal ∨ l.maxFilterBytes > 65535 ∨
      l.offlineTTL < 0 ∨ l.cleanupInterval ≤ 0 then
    .error (.new "invalid session resource limits")
  else if l.maxPendingMessagesPerSession ≤ 0 ∨ l.maxPendingBytesPerSession ≤ 0 ∨
      l.maxPendingMessagesGlobal ≤ 0 ∨ l.maxPendingBytesGlobal ≤ 0 ∨
      l.maxInflightMessagesPerSession ≤ 0 then
    .error (.new "session limits must be positive")
  else if l.maxPendingMessagesPerSession > l.maxPendingMessagesGlobal ∨
      l.maxPendingBytesPerSession > l.maxPendingBytesGlobal then
    .error (.new "session limits exceed global limits")
  else if l.maxInflightMessagesPerSession > 65535 ∨
      l.maxInflightMessagesPerSession > l.maxPendingMessagesPerSession then
    .error (.new "invalid inflight limit")
  else .ok ()

/-- What `validate` accepts. -/
structure Limits.Valid (l : Limits) : Prop where
  positive : 0 < l.maxSessions ∧ 0 < l.maxSubscriptionsPerSession ∧ 0 < l.maxSubscriptionsGlobal ∧
    0 < l.maxFilterBytes ∧ 0 < l.maxFilterLevels
  session : l.maxSubscriptionsPerSession ≤ l.maxSubscriptionsGlobal ∧ l.maxFilterBytes ≤ 65535 ∧
    0 ≤ l.offlineTTL ∧ 0 < l.cleanupInterval
  pending : 0 < l.maxPendingMessagesPerSession ∧ 0 < l.maxPendingBytesPerSession ∧
    0 < l.maxPendingMessagesGlobal ∧ 0 < l.maxPendingBytesGlobal ∧ 0 < l.maxInflightMessagesPerSession
  global : l.maxPendingMessagesPerSession ≤ l.maxPendingMessagesGlobal ∧
    l.maxPendingBytesPerSession ≤ l.maxPendingBytesGlobal
  inflight : l.maxInflightMessagesPerSession ≤ 65535 ∧
    l.maxInflightMessagesPerSession ≤ l.maxPendingMessagesPerSession

theorem Limits.validate_iff (l : Limits) : l.validate = .ok () ↔ l.Valid := by
  unfold Limits.validate
  constructor
  · intro h
    repeat' split at h
    all_goals cases h
    constructor <;> omega
  · rintro ⟨h1, h2, h3, h4, h5⟩
    rw [if_neg (by omega), if_neg (by omega), if_neg (by omega), if_neg (by omega), if_neg (by omega)]

theorem defaultLimits_valid : defaultLimits.validate = .ok () := by decide

inductive DropReason where
  | sessionLimit
  | globalLimit
deriving DecidableEq, Repr

/-- The counters of a session and, as totals, of the store. `SessionCount` and `OldestPendingAge` are computed when they
are read out. -/
structure Snapshot where
  subscriptionCount : Int := 0
  sessionRejections : UInt64 := 0
  subscriptionRejections : UInt64 := 0
  filterRejections : UInt64 := 0
  expiredSessions : UInt64 := 0
  pendingMessages : Int := 0
  pendingBytes : Int := 0
  inflightMessages : Int := 0
  sessionLimitDrops : UInt64 := 0
  globalLimitDrops : UInt64 := 0
deriving DecidableEq, Repr, Inhabited

structure Entry where
  data : Bytes := []
  packetIDOffset : Int := 0
  packetID : UInt16 := 0
  lastEpoch : UInt64 := 0
  accepted : Time := 0
deriving DecidableEq, Repr, Inhabited

structure Delivery where
  data : Bytes
  packetID : UInt16
deriving DecidableEq, Repr

/-- A session (`State` of `store.go`, without its store). -/
structure State where
  id : Bytes := []
  owner : Bytes := []
  deleted : Bool := false
  subscriptions : Go.Map Bytes UInt8 := ∅
  /-- What the `*entry` pointers point to; `allocated` is the next one. -/
  heap : Nat → Entry := fun _ => {}
  allocated : Nat := 0
  entries : List Nat := []
  inflight : Go.Map UInt16 Nat := ∅
  nextPacketID : UInt16 := 0
  epoch : UInt64 := 0
  activeInflight : Int := 0
  paused : Bool := false
  changed : Bool := false
  stats : Snapshot := {}
  connected : Bool := false
  /-- The zero time is `none`. -/
  offlineSince : Option Time := none
deriving Inhabited

namespace State

/-- A session as `GetOrCreateOwned` makes it. -/
def new (id owner : Bytes) (now : Time) : State := { id, owner, offlineSince := some now }

/-- `message.f = ...` through the pointer `p`. -/
def setEntry (p : Nat) (f : Entry → Entry) (s : State) : State :=
  { s with heap := Function.update s.heap p (f (s.heap p)) }

/-- A send to the channel of one slot that does not wait for room. -/
@[simp]
def notifyLocked (s : State) : State := { s with changed := true }

/-- A receive from `Changed()`, the channel of one slot; `none` if it blocks. -/
def receiveChanged (s : State) : Option State := if s.changed then some { s with changed := false } else none

/-! ## Admission -/

/-- The shape check of `Admit`. -/
def queuedPublish (data : Bytes) (packetIDOffset : Int) : Bool :=
  match data with
  | b :: _ :: _ => b >>> 4 = 3 ∧ (b >>> 1) &&& 3 = 1 ∧ 2 ≤ packetIDOffset ∧
      packetIDOffset ≤ (data.length : Int) - 2
  | _ => false

/-- The budget that a message of `size` bytes does not fit. -/
def dropReason (l : Limits) (size : Int) (s : State) (totals : Snapshot) : Option DropReason :=
  if s.stats.pendingMessages ≥ l.maxPendingMessagesPerSession ∨
      size > l.maxPendingBytesPerSession - s.stats.pendingBytes then
    some .sessionLimit
  else if totals.pendingMessages ≥ l.maxPendingMessagesGlobal ∨
      size > l.maxPendingBytesGlobal - totals.pendingBytes then
    some .globalLimit
  else none

/-- The counter of a drop, of the session and of the store. -/
def countDrop : DropReason → Snapshot → Snapshot
  | .sessionLimit, t => { t with sessionLimitDrops := t.sessionLimitDrops + 1 }
  | .globalLimit, t => { t with globalLimitDrops := t.globalLimitDrops + 1 }

/-- One message more, of `size` bytes. -/
def addPending (size : Int) (t : Snapshot) : Snapshot :=
  { t with pendingMessages := t.pendingMessages + 1, pendingBytes := t.pendingBytes + size }

/-- The new entry goes to the end of the queue. -/
def append (now : Time) (data : Bytes) (packetIDOffset : Int) (s : State) : State :=
  notifyLocked { s with
    heap := Function.update s.heap s.allocated { data, packetIDOffset, accepted := now }
    allocated := s.allocated + 1
    entries := s.entries ++ [s.allocated]
    stats := addPending data.length s.stats }

def admitMessage (l : Limits) (now : Time) (data : Bytes) (packetIDOffset : Int) (s : State)
    (totals : Snapshot) : Except Err (Option DropReason) × State × Snapshot :=
  if !queuedPublish data packetIDOffset then (.error (.new "invalid queued publish"), s, totals)
  else if s.deleted then (.error (.new "session removed"), s, totals)
  else match dropReason l data.length s totals with
    | some r => (.ok (some r), { s with stats := countDrop r s.stats }, countDrop r totals)
    | none => (.ok none, s.append now data packetIDOffset, addPending data.length totals)

/-! ## Delivery -/

def beginDelivery (s : State) : UInt64 × State :=
  (s.epoch + 1, notifyLocked { s with epoch := s.epoch + 1, activeInflight := 0 })

def pauseDelivery (s : State) : State := { s with paused := true }

def resumeDelivery (s : State) : State := notifyLocked { s with paused := false }

/-- `s.nextPacketID++`, which skips 0. -/
def nextID (id : UInt16) : UInt16 := if id + 1 = 0 then 1 else id + 1

/-- The loop that looks for a free identifier after `id`. -/
def freePacketID (inflight : Go.Map UInt16 Nat) : Nat → UInt16 → Option UInt16
  | 0, _ => none
  | fuel + 1, id =>
    if inflight[nextID id]? = none then some (nextID id) else freePacketID inflight fuel (nextID id)

/-- The message that `Next` returns: the first one not yet returned in the epoch. -/
def select (epoch : UInt64) (s : State) : Option Nat :=
  s.entries.find? fun p => (s.heap p).lastEpoch ≠ epoch

/-- A private copy of the message with its DUP flag and packet identifier. -/
def delivery (message : Entry) (replay : Bool) : Delivery :=
  let data := message.data.modifyHead fun b => if replay then b ||| 8 else b &&& ~~~8
  let data := data.set message.packetIDOffset.toNat (message.packetID >>> 8).toUInt8
  ⟨data.set (message.packetIDOffset.toNat + 1) message.packetID.toUInt8, message.packetID⟩

/-- A first attempt gets an identifier. -/
def assign (p : Nat) (id : UInt16) (s : State) : State :=
  { s.setEntry p ({ · with packetID := id }) with
    nextPacketID := id
    inflight := s.inflight.insert id p }

/-- An attempt in the current epoch. -/
def attempt (epoch : UInt64) (p : Nat) (s : State) : State :=
  { s.setEntry p ({ · with lastEpoch := epoch }) with activeInflight := s.activeInflight + 1 }

def next (l : Limits) (epoch : UInt64) (s : State) (totals : Snapshot) :
    Option (Option Delivery × State × Snapshot) :=
  if s.deleted ∨ s.paused ∨ epoch ≠ s.epoch ∨
      s.activeInflight ≥ l.maxInflightMessagesPerSession then some (none, s, totals)
  else match s.select epoch with
    | none => some (none, s, totals)
    | some p =>
      if (s.heap p).packetID ≠ 0 then
        let s := s.attempt epoch p
        some (some (delivery (s.heap p) true), s, totals)
      else
        match freePacketID s.inflight 65536 s.nextPacketID with
        | none => none
        | some id =>
          let s := (s.assign p id).attempt epoch p
          some (some (delivery (s.heap p) false), s,
            { totals with inflightMessages := totals.inflightMessages + 1 })

/-! ## Acknowledgement -/

/-- One message less, of `size` bytes. -/
def removePending (size : Int) (t : Snapshot) : Snapshot :=
  { t with pendingMessages := t.pendingMessages - 1, pendingBytes := t.pendingBytes - size }

def ack (packetID : UInt16) (s : State) (totals : Snapshot) : State × Snapshot :=
  match s.inflight[packetID]? with
  | none => (s, totals)
  | some p =>
    if s.deleted then (s, totals)
    else
      let message := s.heap p
      let size : Int := message.data.length
      (notifyLocked { s with
          inflight := s.inflight.erase packetID
          activeInflight := if message.lastEpoch = s.epoch then s.activeInflight - 1 else s.activeInflight
          entries := s.entries.erase p
          stats := removePending size s.stats },
        { removePending size totals with inflightMessages := totals.inflightMessages - 1 })

/-! ## What a call does -/

theorem receiveChanged_eq {s s' : State} (h : s.receiveChanged = some s') : s' = { s with changed := false } := by
  unfold receiveChanged at h
  split at h
  · exact (Option.some.inj h).symm
  · cases h

theorem admit_cases {l : Limits} {now : Time} {data : Bytes} {off : Int} {s s' : State}
    {t t' : Snapshot} {r : Except Err (Option DropReason)}
    (h : s.admitMessage l now data off t = (r, s', t')) :
    (s' = s ∧ t' = t ∧ ∃ e, r = .error e ∧ (queuedPublish data off = false ∨ s.deleted = true)) ∨
    (queuedPublish data off = true ∧ s.deleted = false ∧
      ((∃ d, dropReason l data.length s t = some d ∧ r = .ok (some d) ∧
          s' = { s with stats := countDrop d s.stats } ∧ t' = countDrop d t) ∨
        (dropReason l data.length s t = none ∧ r = .ok none ∧ s' = s.append now data off ∧
          t' = addPending data.length t))) := by
  unfold admitMessage at h
  split at h
  · cases h
    rename_i hq
    exact .inl ⟨rfl, rfl, _, rfl, .inl (by simpa using hq)⟩
  · rename_i hq
    split at h
    · cases h
      rename_i hd
      exact .inl ⟨rfl, rfl, _, rfl, .inr hd⟩
    · rename_i hd
      refine .inr ⟨by simpa using hq, by simpa using hd, ?_⟩
      split at h
      · cases h
        rename_i d hr
        exact .inl ⟨d, hr, rfl, rfl, rfl⟩
      · cases h
        rename_i hr
        exact .inr ⟨hr, rfl, rfl, rfl⟩

/-- The conditions under which `Next` looks at the queue. -/
structure Ready (l : Limits) (epoch : UInt64) (s : State) : Prop where
  live : s.deleted = false
  running : s.paused = false
  current : epoch = s.epoch
  window : s.activeInflight < l.maxInflightMessagesPerSession

theorem next_of_not_ready {l : Limits} {epoch : UInt64} {s : State} (h : ¬ Ready l epoch s)
    (t : Snapshot) : s.next l epoch t = some (none, s, t) := by
  unfold next
  rw [if_pos]
  by_contra hc
  simp only [not_or, Bool.not_eq_true, not_not, not_le, ge_iff_le] at hc
  exact h ⟨hc.1, hc.2.1, hc.2.2.1, hc.2.2.2⟩

/-- A call of `Next` when its conditions hold, by the message that it selects. -/
theorem next_of_ready {l : Limits} {epoch : UInt64} {s : State} (h : Ready l epoch s) (t : Snapshot) :
    s.next l epoch t =
      match s.select epoch with
      | none => some (none, s, t)
      | some p =>
        if (s.heap p).packetID ≠ 0 then
          some (some (delivery ((s.attempt epoch p).heap p) true), s.attempt epoch p, t)
        else (freePacketID s.inflight 65536 s.nextPacketID).map fun id =>
          (some (delivery (((s.assign p id).attempt epoch p).heap p) false),
            (s.assign p id).attempt epoch p,
            { t with inflightMessages := t.inflightMessages + 1 }) := by
  unfold next
  have hw : ¬ s.activeInflight ≥ l.maxInflightMessagesPerSession := not_le.mpr h.window
  rw [if_neg (by simp [h.live, h.running, h.current, hw])]
  cases s.select epoch with
  | none => rfl
  | some p =>
    dsimp only
    split
    · rfl
    · cases freePacketID s.inflight 65536 s.nextPacketID <;> rfl

theorem next_cases {l : Limits} {epoch : UInt64} {s s' : State} {t t' : Snapshot} {r : Option Delivery}
    (h : s.next l epoch t = some (r, s', t')) :
    (r = none ∧ s' = s ∧ t' = t) ∨
    (Ready l epoch s ∧ ∃ p, s.select epoch = some p ∧
      (((s.heap p).packetID ≠ 0 ∧ r = some (delivery ((s.attempt epoch p).heap p) true) ∧
          s' = s.attempt epoch p ∧ t' = t) ∨
        ((s.heap p).packetID = 0 ∧ ∃ id, freePacketID s.inflight 65536 s.nextPacketID = some id ∧
          r = some (delivery (((s.assign p id).attempt epoch p).heap p) false) ∧
          s' = (s.assign p id).attempt epoch p ∧
          t' = { t with inflightMessages := t.inflightMessages + 1 }))) := by
  by_cases hr : Ready l epoch s
  · rw [next_of_ready hr] at h
    cases hs : s.select epoch with
    | none =>
      rw [hs] at h
      cases h
      exact .inl ⟨rfl, rfl, rfl⟩
    | some p =>
      rw [hs] at h
      dsimp only at h
      refine .inr ⟨hr, p, rfl, ?_⟩
      split at h
      · rename_i hp
        cases h
        exact .inl ⟨hp, rfl, rfl, rfl⟩
      · rename_i hp
        obtain ⟨id, hid, he⟩ := Option.map_eq_some_iff.mp h
        cases he
        exact .inr ⟨not_not.mp hp, id, hid, rfl, rfl, rfl⟩
  · rw [next_of_not_ready hr] at h
    cases h
    exact .inl ⟨rfl, rfl, rfl⟩

/-- The state and the totals after an identifier of the live session is acknowledged. -/
theorem ack_of_some {packetID : UInt16} {s : State} {p : Nat} (hp : s.inflight[packetID]? = some p)
    (hd : s.deleted = false) (t : Snapshot) :
    s.ack packetID t =
      ({ s with
          inflight := s.inflight.erase packetID
          activeInflight := if (s.heap p).lastEpoch = s.epoch then s.activeInflight - 1
            else s.activeInflight
          entries := s.entries.erase p
          stats := removePending (s.heap p).data.length s.stats
          changed := true },
        { removePending (s.heap p).data.length t with inflightMessages := t.inflightMessages - 1 }) := by
  simp [ack, hp, hd]

theorem ack_of_none {packetID : UInt16} {s : State}
    (h : s.inflight[packetID]? = none ∨ s.deleted = true) (t : Snapshot) :
    s.ack packetID t = (s, t) := by
  unfold ack
  rcases h with h | h
  · rw [h]
  · cases s.inflight[packetID]? with
    | none => rfl
    | some p => simp [h]

end State

end OrbMQ
