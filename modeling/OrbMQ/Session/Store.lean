import OrbMQ.Protocol.Wire
import OrbMQ.Session.Queue

/-!
# The session store (`internal/session/store.go`)

Sessions are behind pointers that outlive their removal: a handler can still hold the `*State` of a
session that was deleted, or created anew under the same ID. A pointer is a number, in the order of
the creations, and `states` says what it points to. `data` holds pointers, as in the source.

Every function here runs under the mutex of the store.
-/

namespace OrbMQ

open Go

def errSessionOwner : Err := .new "session belongs to another identity"
def errSessionLimit : Err := .new "session limit reached"
def errSubscriptionLimit : Err := .new "subscription limit reached"
def errFilterLimit : Err := .new "filter limit reached"

structure Store where
  data : Go.Map Bytes Nat := ∅
  limits : Limits
  totals : Snapshot := {}
  /-- What the `*State` pointers point to; `allocated` is the next one. -/
  states : Nat → State := fun _ => {}
  allocated : Nat := 0

/-! ## The methods of a session -/

namespace State

def setSubscription (l : Limits) (filter : Bytes) (qos : UInt8) (s : State) (totals : Snapshot) :
    Except Err Unit × State × Snapshot :=
  if s.deleted then (.error (.new "session removed"), s, totals)
  else if (filter.length : Int) > l.maxFilterBytes ∨ (filter.count slash : Int) ≥ l.maxFilterLevels then
    (.error errFilterLimit, s, { totals with filterRejections := totals.filterRejections + 1 })
  else if s.subscriptions[filter]? ≠ none then
    (.ok (), { s with subscriptions := s.subscriptions.insert filter qos }, totals)
  else if (s.subscriptions.size : Int) ≥ l.maxSubscriptionsPerSession ∨
      totals.subscriptionCount ≥ l.maxSubscriptionsGlobal then
    (.error errSubscriptionLimit, s,
      { totals with subscriptionRejections := totals.subscriptionRejections + 1 })
  else
    (.ok (), { s with subscriptions := s.subscriptions.insert filter qos },
      { totals with subscriptionCount := totals.subscriptionCount + 1 })

def deleteSubscription (filter : Bytes) (s : State) (totals : Snapshot) : State × Snapshot :=
  if s.subscriptions[filter]? ≠ none then
    ({ s with subscriptions := s.subscriptions.erase filter },
      { totals with subscriptionCount := totals.subscriptionCount - 1 })
  else (s, totals)

def markConnected (s : State) : State :=
  if !s.deleted then { s with connected := true, offlineSince := none } else s

def markDisconnectedAt (at' : Time) (s : State) : State :=
  if !s.deleted && s.connected then { s with connected := false, offlineSince := some at' } else s

/-- A subscription call changes nothing else of the session. -/
theorem setSubscription_state (l : Limits) (filter : Bytes) (qos : UInt8) (s : State) (t : Snapshot) :
    ∃ subs, (s.setSubscription l filter qos t).2.1 = { s with subscriptions := subs } := by
  unfold setSubscription
  repeat' split
  all_goals exact ⟨_, rfl⟩

/-- A subscription is refused and nothing but a counter changes, or it is there. -/
theorem setSubscription_cases (l : Limits) (filter : Bytes) (qos : UInt8) (s : State) (t : Snapshot) :
    (∃ e t', s.setSubscription l filter qos t = (.error e, s, t')) ∨
    (∃ t', s.setSubscription l filter qos t =
      (.ok (), { s with subscriptions := s.subscriptions.insert filter qos }, t')) := by
  unfold setSubscription
  repeat' split
  all_goals first
    | exact .inl ⟨_, _, rfl⟩
    | exact .inr ⟨_, rfl⟩

theorem deleteSubscription_get (filter f : Bytes) (s : State) (t : Snapshot) :
    (s.deleteSubscription filter t).1.subscriptions[f]? =
      if filter = f then none else s.subscriptions[f]? := by
  unfold deleteSubscription
  split
  · exact Map.get_erase ..
  · rename_i h
    split
    · rename_i e
      exact e ▸ not_not.mp h
    · rfl

theorem deleteSubscription_state (filter : Bytes) (s : State) (t : Snapshot) :
    ∃ subs, (s.deleteSubscription filter t).1 = { s with subscriptions := subs } := by
  unfold deleteSubscription
  split <;> exact ⟨_, rfl⟩

theorem markConnected_state (s : State) :
    ∃ c o, s.markConnected = { s with connected := c, offlineSince := o } := by
  unfold markConnected
  split <;> exact ⟨_, _, rfl⟩

theorem markConnected_live {s : State} (h : s.deleted = false) :
    s.markConnected = { s with connected := true, offlineSince := none } := by
  simp [markConnected, h]

theorem markDisconnectedAt_state (now : Time) (s : State) :
    ∃ c o, s.markDisconnectedAt now = { s with connected := c, offlineSince := o } := by
  unfold markDisconnectedAt
  split <;> exact ⟨_, _, rfl⟩

theorem markDisconnectedAt_live {s : State} (h : s.deleted = false) (hc : s.connected = true) (now : Time) :
    s.markDisconnectedAt now = { s with connected := false, offlineSince := some now } := by
  simp [markDisconnectedAt, h, hc]

/-- The subscriptions in the order of their filters. -/
def snapshotSubscriptions (s : State) : List (Bytes × UInt8) := s.subscriptions.toList

/-- What `deleteLocked` does to the session that it removes. -/
def remove (s : State) : State :=
  notifyLocked { s with
    deleted := true
    entries := []
    inflight := ∅
    subscriptions := ∅
    stats := { s.stats with pendingMessages := 0, pendingBytes := 0 } }

/-- `s.connected || s.offlineSince.IsZero() || now.Sub(s.offlineSince) < ttl`, negated. -/
def expired (ttl : Int) (now : Time) (s : State) : Bool :=
  !s.connected && s.offlineSince.any fun since => !decide (now - since < ttl)

end State

/-! ## The methods of the store -/

namespace Store

def newWithLimits (limits : Limits) : Except Err Store := do
  limits.validate
  return { limits }

/-- A session changed by one of its methods, with the totals. -/
def set (r : Nat) (s : State) (totals : Snapshot) (st : Store) : Store :=
  { st with states := Function.update st.states r s, totals }

def get (id : Bytes) (st : Store) : Option Nat := st.data[id]?

/-- The session and whether it was there. -/
def getOrCreateOwned (now : Time) (id owner : Bytes) (st : Store) : Except Err (Nat × Bool) × Store :=
  match st.data[id]? with
  | some r => if (st.states r).owner ≠ owner then (.error errSessionOwner, st) else (.ok (r, true), st)
  | none =>
    if (st.data.size : Int) ≥ st.limits.maxSessions then
      (.error errSessionLimit,
        { st with totals := { st.totals with sessionRejections := st.totals.sessionRejections + 1 } })
    else
      (.ok (st.allocated, false),
        { st with
          states := Function.update st.states st.allocated (State.new id owner now)
          allocated := st.allocated + 1
          data := st.data.insert id st.allocated })

/-- The totals without a session that is removed. -/
def release (s : State) (t : Snapshot) : Snapshot :=
  { t with
    pendingMessages := t.pendingMessages - s.stats.pendingMessages
    pendingBytes := t.pendingBytes - s.stats.pendingBytes
    inflightMessages := t.inflightMessages - s.inflight.size
    subscriptionCount := t.subscriptionCount - s.subscriptions.size }

def deleteLocked (id : Bytes) (st : Store) : Store :=
  match st.data[id]? with
  | none => st
  | some r =>
    { st.set r (st.states r).remove (release (st.states r) st.totals) with data := st.data.erase id }

def delete (id : Bytes) (st : Store) : Store := st.deleteLocked id

def expireLocked (state : Option Nat) (now : Time) (st : Store) : Bool × Store :=
  match state with
  | none => (false, st)
  | some r =>
    if st.limits.offlineTTL = 0 || !(st.states r).expired st.limits.offlineTTL now then (false, st)
    else
      let st := st.deleteLocked (st.states r).id
      (true, { st with totals := { st.totals with expiredSessions := st.totals.expiredSessions + 1 } })

/-- The loop of `Expire` over the sessions, in the order of the range loop. -/
def expireLoop (now : Time) : List Bytes → Store → List Bytes × Store
  | [], st => ([], st)
  | id :: order, st =>
    let (expired, st) := st.expireLocked st.data[id]? now
    let (ids, st) := expireLoop now order st
    (if expired then id :: ids else ids, st)

/-- The IDs of the sessions that were removed. -/
def expire (now : Time) (order : List Bytes) (st : Store) : List Bytes × Store :=
  if st.limits.offlineTTL = 0 then ([], st) else expireLoop now order st

def expireSession (id : Bytes) (now : Time) (st : Store) : Bool × Store :=
  st.expireLocked st.data[id]? now

/-! ## What a removal changes -/

variable (st : Store) (id : Bytes)

theorem deleteLocked_data (id' : Bytes) :
    (st.deleteLocked id).data[id']? = if id = id' then none else st.data[id']? := by
  unfold deleteLocked
  split
  · split <;> simp_all
  · exact Map.get_erase ..

theorem deleteLocked_states (r : Nat) :
    (st.deleteLocked id).states r = if st.data[id]? = some r then (st.states r).remove else st.states r := by
  unfold deleteLocked
  split
  · simp_all
  · rename_i r' hr'
    simp only [set, Function.update_apply, hr', Option.some.injEq]
    grind

@[simp] theorem deleteLocked_allocated : (st.deleteLocked id).allocated = st.allocated := by
  unfold deleteLocked
  split <;> rfl

/-- The store without a session that expired. -/
def expireRemoved : Store :=
  { st.deleteLocked id with
    totals := { (st.deleteLocked id).totals with
      expiredSessions := (st.deleteLocked id).totals.expiredSessions + 1 } }

/-- A session expires or stays. One that expires is offline. -/
theorem expireSession_cases {st : Store} {id : Bytes} (hid : ∀ r, st.data[id]? = some r → (st.states r).id = id)
    (now : Time) : st.expireSession id now = (false, st) ∨
      ∃ r, st.data[id]? = some r ∧ (st.states r).connected = false ∧
        st.expireSession id now = (true, st.expireRemoved id) := by
  unfold expireSession expireLocked
  split
  · exact .inl rfl
  · rename_i r hr
    split
    · exact .inl rfl
    · rename_i h
      simp only [State.expired, Bool.or_eq_true, Bool.not_eq_true', not_or, Bool.not_eq_false,
        Bool.and_eq_true] at h
      refine .inr ⟨r, hr, h.2.1, ?_⟩
      rw [hid r hr]
      rfl

end Store

end OrbMQ
