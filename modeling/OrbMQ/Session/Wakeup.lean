import OrbMQ.Session.Entries
import OrbMQ.Session.Inflight

/-!
# The delivery consumer is never asleep with work to do

`consumeDeliveries` calls `Next` until it returns nothing, and then waits on the channel `Changed()`,
which has one slot: a notification that finds it full is lost. `State.Signalled` says that there is
nothing to deliver, or a token in the channel. Every call on the store keeps it, except the receive
itself (`StoreOp.signalled`), and `Next` establishes it when it returns nothing. So it holds while the
consumer waits, whatever is called in between (`no_lost_wakeup`).
-/

namespace OrbMQ

open Go

namespace State

/-- `Next(epoch)` finds its conditions met and a message to return. -/
def Deliverable (l : Limits) (epoch : UInt64) (s : State) : Prop :=
  s.deleted = false ∧ s.paused = false ∧ epoch = s.epoch ∧
    s.activeInflight < l.maxInflightMessagesPerSession ∧ s.select epoch ≠ none

/-- A consumer that waits for the epoch has nothing to deliver, or a token to receive. -/
def Signalled (l : Limits) (epoch : UInt64) (s : State) : Prop :=
  s.changed = true ∨ ¬ s.Deliverable l epoch

variable {l : Limits} {epoch : UInt64} {s s' : State} {t t' : Snapshot}

theorem next_of_not_deliverable (h : ¬ s.Deliverable l epoch) (t : Snapshot) :
    s.next l epoch t = some (none, s, t) := by
  by_cases hr : Ready l epoch s
  · have hsel : s.select epoch = none := by
      by_contra hne
      exact h ⟨hr.live, hr.running, hr.current, hr.window, hne⟩
    rw [next_of_ready hr, hsel]
  · exact next_of_not_ready hr t

theorem not_deliverable_of_next (h : s.next l epoch t = some (none, s', t')) :
    ¬ s.Deliverable l epoch := by
  rintro ⟨hd, hp, he, hw, hsel⟩
  obtain ⟨p, hsel⟩ := Option.ne_none_iff_exists'.mp hsel
  rw [next_of_ready ⟨hd, hp, he, hw⟩, hsel] at h
  dsimp only at h
  split at h
  · cases h
  · obtain ⟨id, -, hid⟩ := Option.map_eq_some_iff.mp h
    cases hid

theorem not_deliverable_of_deleted (h : s.deleted = true) : ¬ s.Deliverable l epoch := fun hd => by
  rw [hd.1] at h
  cases h

/-- Deliveries in the current epoch do not wake up a consumer of another one. -/
theorem Signalled.deliver {epoch' : UInt64} (h : s.Signalled l epoch) (hr : Ready l epoch' s) {p : Nat}
    (hsel : s.select epoch' = some p) (hchanged : s'.changed = s.changed) (hepoch : s'.epoch = s.epoch) :
    s'.Signalled l epoch := by
  obtain h | h := h
  · exact .inl (hchanged.trans h)
  · refine .inr fun hd => h ?_
    have he : epoch = epoch' := hd.2.2.1.trans (hepoch.trans hr.current.symm)
    subst he
    exact ⟨hr.live, hr.running, hr.current, hr.window, by simp [hsel]⟩

end State

theorem StateOp.signalled {l : Limits} {epoch : UInt64} {s s' : State} {t t' : Snapshot} {op : StateOp}
    (h : s.Signalled l epoch) (hop : op.run l s t = some (s', t')) (hne : op ≠ .changed) :
    s'.Signalled l epoch := by
  cases run_moves hop with
  | append | beginDelivery | resumeDelivery | ack => exact .inl rfl
  | pauseDelivery => exact .inr fun hd => Bool.noConfusion hd.2.1
  | attempt hr hsel => exact h.deliver hr hsel rfl rfl
  | assign hr hsel => exact h.deliver hr hsel rfl rfl
  | changed => exact (hne rfl).elim
  | _ => exact h

/-- A receive from the channel of the session `r`. -/
def StoreOp.receives (r : Nat) : StoreOp → Bool
  | .on r' .changed => r' = r
  | _ => false

theorem StoreOp.signalled {epoch : UInt64} {st st' : Store} {op : StoreOp} {r : Nat}
    (hr : r < st.allocated) (h : (st.states r).Signalled st.limits epoch) (hop : op.step st = some st')
    (hne : op.receives r = false) : (st'.states r).Signalled st'.limits epoch := by
  -- A session that is removed has nothing to deliver, and one that is not is as it was.
  have hremoves : Removes st st' → (st'.states r).Signalled st'.limits epoch := by
    intro hrem
    rw [hrem.limits]
    cases hd : (st'.states r).deleted with
    | true => exact .inr (State.not_deliverable_of_deleted hd)
    | false =>
      rw [hrem.live r hd]
      exact h
  cases step_moves hop with
  | getOrCreateOwned now id owner =>
    unfold Store.getOrCreateOwned
    repeat' split
    · exact h
    · exact h
    · exact h
    · dsimp only
      rw [Function.update_of_ne (Nat.ne_of_lt hr)]
      exact h
  | delete id => exact hremoves (removes_deleteLocked st id)
  | @expire now order => exact hremoves (removes_expire st now order)
  | expireSession id now => exact hremoves (removes_expireLocked st _ now)
  | @on r' op s t _ hrun =>
    dsimp only [Store.set]
    rw [Function.update_apply]
    split
    · rename_i e
      subst e
      refine StateOp.signalled h hrun ?_
      rintro rfl
      simp [receives] at hne
    · exact h

/-! ## The consumer -/

/-- Where `consumeDeliveries` is: before a call of `Next`, with a delivery to send, or waiting. -/
inductive Waiter where
  | polling
  | delivering
  | parked
  deriving DecidableEq

inductive WaiterAction where
  /-- A call of anybody else. The consumer alone receives from the channel of its session. -/
  | call (op : StoreOp)
  | next
  | sent
  | receive

/-- One step of the consumer of the session `r` and of everybody else. -/
def waiterStep (r : Nat) (epoch : UInt64) (s : Store × Waiter) (a : WaiterAction) : Option (Store × Waiter) :=
  match a, s with
  | .call op, (st, w) => if op.receives r then none else (op.step st).map fun st => (st, w)
  | .next, (st, .polling) => ((st.states r).next st.limits epoch st.totals).map fun (d, s, t) =>
    (st.set r s t, if d.isSome then .delivering else .parked)
  | .sent, (st, .delivering) => some (st, .polling)
  | .receive, (st, .parked) => (st.states r).receiveChanged.map fun s => (st.set r s st.totals, .polling)
  | _, _ => none

/-- What holds while the consumer of `r` runs. -/
def Waits (r : Nat) (epoch : UInt64) (s : Store × Waiter) : Prop :=
  r < s.1.allocated ∧ (s.2 = .parked → (s.1.states r).Signalled s.1.limits epoch)

theorem waiterStep_waits {r : Nat} {epoch : UInt64} {s s' : Store × Waiter} {a : WaiterAction}
    (h : Waits r epoch s) (hs : waiterStep r epoch s a = some s') : Waits r epoch s' := by
  obtain ⟨st, w⟩ := s
  obtain ⟨hr, hw⟩ := h
  cases a with
  | call op =>
    simp only [waiterStep] at hs
    split at hs
    · cases hs
    · rename_i hne
      obtain ⟨st', hop, rfl⟩ := Option.map_eq_some_iff.mp hs
      exact ⟨Nat.lt_of_lt_of_le hr (StoreOp.keeps hop).allocated, fun hp =>
        StoreOp.signalled hr (hw hp) hop (by simpa using hne)⟩
  | next =>
    cases w with
    | polling =>
      obtain ⟨⟨d, s, t⟩, hn, rfl⟩ := Option.map_eq_some_iff.mp hs
      refine ⟨hr, fun hp => ?_⟩
      cases d with
      | some d => cases hp
      | none =>
        dsimp only [Store.set]
        rw [Function.update_self]
        obtain ⟨-, rfl, -⟩ | ⟨-, p, -, ⟨-, hd, -⟩ | ⟨-, id, -, hd, -⟩⟩ := State.next_cases hn
        · exact .inr (State.not_deliverable_of_next hn)
        · cases hd
        · cases hd
    | _ => cases hs
  | sent =>
    cases w with
    | delivering =>
      cases hs
      exact ⟨hr, nofun⟩
    | _ => cases hs
  | receive =>
    cases w with
    | parked =>
      obtain ⟨s, -, rfl⟩ := Option.map_eq_some_iff.mp hs
      exact ⟨hr, nofun⟩
    | _ => cases hs

/-- **No lost wake-up.** While the consumer waits and the channel is empty, `Next` has nothing to
return, whatever was called on the store, in any order, since the consumer started. -/
theorem no_lost_wakeup (st₀ st : Store) (r : Nat) (epoch : UInt64) (acts : List WaiterAction)
    (hr : r < st₀.allocated) (hrun : Sys.run (waiterStep r epoch) (st₀, .polling) acts = some (st, .parked))
    (hempty : (st.states r).changed = false) :
    (st.states r).next st.limits epoch st.totals = some (none, st.states r, st.totals) := by
  have hwaits : Waits r epoch (st, .parked) :=
    Sys.run_invariant (I := Waits r epoch) ⟨hr, fun hp => Waiter.noConfusion hp⟩ (fun _ _ _ hi hs => waiterStep_waits hi hs) hrun
  obtain hc | hd := hwaits.2 rfl
  · rw [hempty] at hc
    cases hc
  · exact State.next_of_not_deliverable hd _

/-- The window of one message is full: a second message and the acknowledgement of the first leave
one token, which the consumer receives before it waits again. -/
theorem no_lost_wakeup_coalesced :
    ∃ st : Store, (st.states 0).entries = [1] ∧ (st.states 0).changed = false ∧
      (st.states 0).next st.limits 1 st.totals = some (none, st.states 0, st.totals) := by
  let l := { defaultLimits with maxInflightMessagesPerSession := 1 }
  let acts : List WaiterAction := [.call (.on 0 .beginDelivery),
    .call (.on 0 (.admitMessage 0 [0x32, 5, 0, 1, 97, 0, 1] 5)), .next, .sent,
    .call (.on 0 (.admitMessage 0 [0x32, 5, 0, 1, 98, 0, 1] 5)), .next, .call (.on 0 (.ack 1)), .receive,
    .next, .sent, .next]
  let st₀ := (({ limits := l } : Store).getOrCreateOwned 0 [99] []).2
  have hrun : (Sys.run (waiterStep 0 1) (st₀, .polling) acts).map
      (fun s => ((s.1.states 0).entries, (s.1.states 0).changed, s.2)) = some ([1], false, .parked) := by
    decide +kernel
  obtain ⟨⟨st, w⟩, hrun, he⟩ := Option.map_eq_some_iff.mp hrun
  obtain ⟨h1, he⟩ := Prod.mk.inj he
  obtain ⟨h2, rfl⟩ := Prod.mk.inj he
  exact ⟨st, h1, h2, no_lost_wakeup st₀ st 0 1 acts (by decide) hrun h2⟩

end OrbMQ
