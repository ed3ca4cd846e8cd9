import OrbMQ.Session.Inflight

/-!
# Calls that the store refuses

A call on the store or on a session is refused with an error, a drop reason, or by doing nothing
(`Refusal`). `Store.refuse` is the store after a refusal: the counter of its reason has grown, and
nothing else has changed. `store_refusals` says that every refusal is of this kind, when a message is
dropped, in terms of the messages that are really queued, and that a call on one session leaves the
others alone.
-/

namespace OrbMQ

open Go

/-- Why a call is refused. -/
inductive Refusal where
  | error (e : Err)
  | drop (d : DropReason)
  /-- `Ack` of an identifier that is not in use, or on a removed session. -/
  | unknownID
  /-- `Next` without a delivery. -/
  | nothing
  deriving DecidableEq

/-- The counter of the store for a reason; most reasons have none. -/
def Refusal.count : Refusal → Snapshot → Snapshot
  | .error e, t =>
    if e = errSessionLimit then { t with sessionRejections := t.sessionRejections + 1 }
    else if e = errFilterLimit then { t with filterRejections := t.filterRejections + 1 }
    else if e = errSubscriptionLimit then { t with subscriptionRejections := t.subscriptionRejections + 1 }
    else t
  | .drop d, t => State.countDrop d t
  | _, t => t

/-- Only drops are also counted by the session. -/
def Refusal.countSession : Refusal → Snapshot → Snapshot
  | .drop d, t => State.countDrop d t
  | _, t => t

def StateOp.refusal (l : Limits) (s : State) (t : Snapshot) : StateOp → Option Refusal
  | .setSubscription filter qos => match (s.setSubscription l filter qos t).1 with
    | .error e => some (.error e)
    | .ok _ => none
  | .admitMessage now data off => match (s.admitMessage l now data off t).1 with
    | .error e => some (.error e)
    | .ok reason => reason.map .drop
  | .next epoch => match s.next l epoch t with
    | some (none, _) => some .nothing
    | _ => none
  | .ack packetID => if s.inflight[packetID]? = none ∨ s.deleted then some .unknownID else none
  | _ => none

def StoreOp.refusal (st : Store) : StoreOp → Option Refusal
  | .getOrCreateOwned now id owner => match (st.getOrCreateOwned now id owner).1 with
    | .error e => some (.error e)
    | .ok _ => none
  | .on r op => op.refusal st.limits (st.states r) st.totals
  | _ => none

/-- The session that a call is on. -/
def StoreOp.on? : StoreOp → Option Nat
  | .on r _ => some r
  | _ => none

/-- The session after a call on it was refused. -/
def State.refuse (why : Refusal) (s : State) : State := { s with stats := why.countSession s.stats }

/-- The store after a call was refused. -/
def Store.refuse (op : StoreOp) (why : Refusal) (st : Store) : Store :=
  { st with
    totals := why.count st.totals
    states := fun r => if op.on? = some r then (st.states r).refuse why else st.states r }

/-! ## A refusal is counted and has no other effect -/

theorem setSubscription_refused {l : Limits} {filter : Bytes} {qos : UInt8} {s s' : State}
    {t t' : Snapshot} {e : Err} (h : s.setSubscription l filter qos t = (.error e, s', t')) :
    s' = s ∧ t' = (Refusal.error e).count t := by
  unfold State.setSubscription at h
  repeat' split at h
  all_goals cases h
  all_goals exact ⟨rfl, rfl⟩

theorem getOrCreateOwned_refused {now : Time} {id owner : Bytes} {st st' : Store} {e : Err}
    (h : st.getOrCreateOwned now id owner = (.error e, st')) :
    st' = { st with totals := (Refusal.error e).count st.totals } := by
  unfold Store.getOrCreateOwned at h
  repeat' split at h
  all_goals cases h
  all_goals rfl

/-- The only errors of `Admit`, neither of which is counted. -/
theorem admitMessage_error {l : Limits} {now : Time} {data : Bytes} {off : Int} {s s' : State}
    {t t' : Snapshot} {e : Err} (h : s.admitMessage l now data off t = (.error e, s', t')) :
    e = .new "invalid queued publish" ∨ e = .new "session removed" := by
  unfold State.admitMessage at h
  repeat' split at h
  all_goals cases h
  · exact .inl rfl
  · exact .inr rfl

/-- A refused call on a session. -/
theorem StateOp.refused {l : Limits} {s s' : State} {t t' : Snapshot} {op : StateOp} {why : Refusal}
    (h : op.refusal l s t = some why) (hop : op.run l s t = some (s', t')) :
    s' = s.refuse why ∧ t' = why.count t := by
  cases op with
  | setSubscription filter qos =>
    obtain ⟨res, s₁, t₁, hs⟩ : ∃ res s₁ t₁, s.setSubscription l filter qos t = (res, s₁, t₁) := ⟨_, _, _, rfl⟩
    simp only [refusal, run, hs] at h hop
    cases hop
    cases res with
    | ok _ => cases h
    | error e =>
      cases h
      exact setSubscription_refused hs
  | admitMessage now data off =>
    obtain ⟨res, s₁, t₁, hs⟩ : ∃ res s₁ t₁, s.admitMessage l now data off t = (res, s₁, t₁) := ⟨_, _, _, rfl⟩
    simp only [refusal, run, hs] at h hop
    cases hop
    obtain ⟨rfl, rfl, e, rfl, -⟩ | ⟨-, -, ⟨d, -, rfl, rfl, rfl⟩ | ⟨-, rfl, -, -⟩⟩ := State.admit_cases hs
    · cases h
      refine ⟨rfl, ?_⟩
      obtain rfl | rfl := admitMessage_error hs <;> rfl
    · cases h
      exact ⟨rfl, rfl⟩
    · cases h
  | next epoch =>
    obtain ⟨⟨d, s₁, t₁⟩, hn, he⟩ := Option.map_eq_some_iff.mp hop
    cases he
    simp only [refusal, hn] at h
    obtain ⟨rfl, rfl, rfl⟩ | ⟨-, p, -, ⟨-, rfl, -, -⟩ | ⟨-, id, -, rfl, -, -⟩⟩ := State.next_cases hn
    · cases h
      exact ⟨rfl, rfl⟩
    · cases h
    · cases h
  | ack packetID =>
    simp only [refusal] at h
    split at h
    · rename_i hc
      cases h
      simp only [run, State.ack_of_none hc] at hop
      cases hop
      exact ⟨rfl, rfl⟩
    · cases h
  | _ => cases h

/-- A refused call on the store or on a session. -/
theorem StoreOp.refused {st st' : Store} {op : StoreOp} {why : Refusal} (h : op.refusal st = some why)
    (hop : op.step st = some st') : st' = st.refuse op why := by
  cases op with
  | getOrCreateOwned now id owner =>
    obtain ⟨res, st₁, hs⟩ : ∃ res st₁, st.getOrCreateOwned now id owner = (res, st₁) := ⟨_, _, rfl⟩
    simp only [refusal, step, hs] at h hop
    cases hop
    cases res with
    | ok _ => cases h
    | error e =>
      cases h
      rw [getOrCreateOwned_refused hs]
      rfl
  | on r op =>
    simp only [step] at hop
    split at hop
    · obtain ⟨⟨s, t⟩, hrun, rfl⟩ := Option.map_eq_some_iff.mp hop
      obtain ⟨rfl, rfl⟩ := StateOp.refused h hrun
      have hstates : Function.update st.states r ((st.states r).refuse why) =
          fun r' => if some r = some r' then (st.states r').refuse why else st.states r' := by
        funext r'
        rw [Function.update_apply]
        by_cases e : r' = r
        · rw [if_pos e, if_pos (congrArg some e.symm), e]
        · rw [if_neg e, if_neg fun he => e (Option.some.inj he).symm]
      rw [Store.set, hstates]
      rfl
    · cases hop
  | _ => cases h

/-! ## Which messages are dropped -/

/-- The message fits what is left of the session's budgets. -/
def State.Fits (l : Limits) (data : Bytes) (s : State) : Prop :=
  (s.entries.length : Int) + 1 ≤ l.maxPendingMessagesPerSession ∧
    s.pendingSize + data.length ≤ l.maxPendingBytesPerSession

/-- The message fits what all sessions leave of the global budgets. -/
def Store.Fits (data : Bytes) (st : Store) : Prop :=
  let queued := Map.sum (fun r => (st.states r).usage) st.data
  queued.1 + 1 ≤ st.limits.maxPendingMessagesGlobal ∧
    queued.2.1 + data.length ≤ st.limits.maxPendingBytesGlobal

/-- The counters that `Admit` looks at are those of the queued messages. -/
theorem Store.Inv.dropReason {st : Store} (h : st.Inv) (r : Nat) (data : Bytes) :
    (State.dropReason st.limits data.length (st.states r) st.totals = some .sessionLimit ↔
      ¬ (st.states r).Fits st.limits data) ∧
    (State.dropReason st.limits data.length (st.states r) st.totals = some .globalLimit ↔
      (st.states r).Fits st.limits data ∧ ¬ st.Fits data) := by
  have hm := (h.accounts r).messages
  have hb := (h.accounts r).bytes
  unfold State.dropReason State.Fits Store.Fits
  rw [← h.usage, hm, hb]
  simp only [Snapshot.usage]
  split
  · simp only [reduceCtorEq, Option.some.injEq, false_iff, true_iff]
    omega
  · split
    · simp only [reduceCtorEq, Option.some.injEq, false_iff, true_iff]
      omega
    · simp only [reduceCtorEq, false_iff]
      omega

/-! ## Other sessions -/

/-- The sessions that a call can change: the one that it is on, the one of the ID that it removes, or
those that it found expired. -/
def StoreOp.Changes (st st' : Store) (r : Nat) : StoreOp → Prop
  | .getOrCreateOwned _ _ _ => False
  | .delete id => st.data[id]? = some r
  | .expireSession id _ => st.data[id]? = some r
  | .expire _ _ => (st'.states r).deleted = true
  | .on r' _ => r' = r

theorem StoreOp.unchanged {st st' : Store} (h : st.Inv) {op : StoreOp} (hop : op.step st = some st')
    {r : Nat} (hr : r < st.allocated) (hc : ¬ op.Changes st st' r) : st'.states r = st.states r := by
  cases step_moves hop with
  | getOrCreateOwned now id owner =>
    unfold Store.getOrCreateOwned
    repeat' split
    · rfl
    · rfl
    · rfl
    · exact Function.update_of_ne (Nat.ne_of_lt hr) _ _
  | delete id => exact (Store.deleteLocked_states ..).trans (if_neg hc)
  | expireSession id now =>
    obtain he | ⟨r', hr', -, he⟩ := Store.expireSession_cases (fun r' hr' => (h.stored id r' hr').2.1) now
    · rw [he]
    · rw [he]
      exact (Store.deleteLocked_states ..).trans (if_neg hc)
  | @expire now order => exact (removes_expire st now order).live r (by simpa [Changes] using hc)
  | on => exact Function.update_of_ne (Ne.symm hc) _ _

/-- What refusals and accepted calls leave alone. -/
structure Store.Refusals (st : Store) : Prop where
  refused : ∀ op why st', StoreOp.refusal st op = some why → StoreOp.step st op = some st' →
    st' = st.refuse op why
  session : ∀ r now data off, (st.states r).deleted = false → State.queuedPublish data off = true →
    (StoreOp.refusal st (.on r (.admitMessage now data off)) = some (.drop .sessionLimit) ↔
      ¬ (st.states r).Fits st.limits data)
  global : ∀ r now data off, (st.states r).deleted = false → State.queuedPublish data off = true →
    (StoreOp.refusal st (.on r (.admitMessage now data off)) = some (.drop .globalLimit) ↔
      (st.states r).Fits st.limits data ∧ ¬ st.Fits data)
  others : ∀ op st' r, StoreOp.step st op = some st' → r < st.allocated → ¬ op.Changes st st' r →
    st'.states r = st.states r

/-- The refusal of a well-formed message by a live session is its drop reason. -/
theorem admit_refusal {st : Store} {r : Nat} {now : Time} {data : Bytes} {off : Int}
    (hd : (st.states r).deleted = false) (hq : State.queuedPublish data off = true) :
    StoreOp.refusal st (.on r (.admitMessage now data off)) =
      (State.dropReason st.limits data.length (st.states r) st.totals).map .drop := by
  simp only [StoreOp.refusal, StateOp.refusal, State.admitMessage, hq, hd, Bool.not_true, Bool.false_eq_true,
    if_false]
  cases State.dropReason st.limits data.length (st.states r) st.totals <;> rfl

/-- **Refusals**, in every store that calls on a new one lead to. -/
theorem store_refusals (l : Limits) (st₀ : Store) (hnew : Store.newWithLimits l = .ok st₀)
    (ops : List StoreOp) (st : Store) (hrun : Sys.run StoreOp.step st₀ ops = some st) : st.Refusals := by
  obtain ⟨hl, rfl⟩ := newWithLimits_ok hnew
  have hinv : st.Inv := Sys.run_invariant (Store.inv_new hl) (fun _ op _ h hs => op.step_inv h hs) hrun
  have hdrop : ∀ {o : Option DropReason} {d : DropReason}, o.map Refusal.drop = some (.drop d) ↔ o = some d := by
    intro o d
    cases o <;> simp
  refine ⟨fun op why st' h hs => StoreOp.refused h hs, ?_, ?_, fun op st' r hs hr hc =>
    StoreOp.unchanged hinv hs hr hc⟩
  · intro r now data off hd hq
    rw [admit_refusal hd hq, hdrop]
    exact (hinv.dropReason r data).1
  · intro r now data off hd hq
    rw [admit_refusal hd hq, hdrop]
    exact (hinv.dropReason r data).2

/-- Room for one message per session: the second one is dropped. -/
def fullSessionOps : List StoreOp :=
  [.getOrCreateOwned 0 [99] [], .on 0 (.admitMessage 0 [0x32, 5, 0, 1, 97, 0, 1] 5)]

theorem store_refusals_full :
    ∃ st : Store, StoreOp.refusal st (.on 0 (.admitMessage 0 [0x32, 5, 0, 1, 97, 0, 1] 5)) =
        some (.drop .sessionLimit) ∧ st.Refusals := by
  let l := { defaultLimits with maxPendingMessagesPerSession := 1, maxInflightMessagesPerSession := 1 }
  have hrun : (Sys.run StoreOp.step { limits := l } fullSessionOps).map
      (fun st => StoreOp.refusal st (.on 0 (.admitMessage 0 [0x32, 5, 0, 1, 97, 0, 1] 5))) =
      some (some (.drop .sessionLimit)) := by decide +kernel
  obtain ⟨st, hrun, hdrop⟩ := Option.map_eq_some_iff.mp hrun
  exact ⟨st, hdrop, store_refusals l _ rfl fullSessionOps st hrun⟩

end OrbMQ
