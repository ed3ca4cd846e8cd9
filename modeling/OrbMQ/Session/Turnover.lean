import OrbMQ.Session.Entries
import OrbMQ.Session.Inflight

/-!
# What a call leaves alone

`StateOp.Frame` says which fields of a session a call on it can change. The calls that create, remove,
connect and disconnect sessions do not touch their messages: `Store.Turnover` says what they do to
every session, and that a new one is empty. So who looks at the queue of a session can ignore the
latter, and who looks at its lifetime the former.
-/

namespace OrbMQ

open Go State

/-- A call that connects or disconnects a session. -/
def StateOp.marks : StateOp → Bool
  | .markConnected | .markDisconnectedAt _ => true
  | _ => false

/-- What a call on a session keeps. -/
structure StateOp.Frame (op : StateOp) (s s' : State) : Prop where
  id : s'.id = s.id
  owner : s'.owner = s.owner
  deleted : s'.deleted = s.deleted
  connected : op.marks = false → s'.connected = s.connected ∧ s'.offlineSince = s.offlineSince
  paused : op ≠ .pauseDelivery → op ≠ .resumeDelivery → s'.paused = s.paused
  allocated : (∀ now data off, op ≠ .admitMessage now data off) → s'.allocated = s.allocated

theorem StateOp.frame {l : Limits} {s s' : State} {t t' : Snapshot} {op : StateOp}
    (hop : op.run l s t = some (s', t')) : op.Frame s s' := by
  cases run_moves hop with
  | unadmitted | dropped | append =>
    exact ⟨rfl, rfl, rfl, fun _ => ⟨rfl, rfl⟩, fun _ _ => rfl, fun h => (h _ _ _ rfl).elim⟩
  | pauseDelivery => exact ⟨rfl, rfl, rfl, fun _ => ⟨rfl, rfl⟩, fun h _ => (h rfl).elim, fun _ => rfl⟩
  | resumeDelivery => exact ⟨rfl, rfl, rfl, fun _ => ⟨rfl, rfl⟩, fun _ h => (h rfl).elim, fun _ => rfl⟩
  | markConnected | markDisconnectedAt => exact ⟨rfl, rfl, rfl, nofun, fun _ _ => rfl, fun _ => rfl⟩
  | _ => exact ⟨rfl, rfl, rfl, fun _ => ⟨rfl, rfl⟩, fun _ _ => rfl, fun _ => rfl⟩

/-! ## Sessions that come and go -/

/-- The messages of a session are as they were, or they went with the session. -/
structure State.Stays (s s' : State) : Prop where
  id : s'.id = s.id
  owner : s'.owner = s.owner
  heap : s'.heap = s.heap
  allocated : s'.allocated = s.allocated
  epoch : s'.epoch = s.epoch
  paused : s'.paused = s.paused
  deleted : s.deleted = true → s'.deleted = true
  entries : s'.entries = s.entries ∨ s'.entries = []

namespace State.Stays

variable {s s' s'' : State}

theorem refl (s : State) : s.Stays s := ⟨rfl, rfl, rfl, rfl, rfl, rfl, fun hd => hd, .inl rfl⟩

theorem trans (h : s.Stays s') (h' : s'.Stays s'') : s.Stays s'' where
  id := h'.id.trans h.id
  owner := h'.owner.trans h.owner
  heap := h'.heap.trans h.heap
  allocated := h'.allocated.trans h.allocated
  epoch := h'.epoch.trans h.epoch
  paused := h'.paused.trans h.paused
  deleted hd := h'.deleted (h.deleted hd)
  entries := h'.entries.elim (fun e => e ▸ h.entries) .inr

theorem remove (s : State) : s.Stays s.remove := ⟨rfl, rfl, rfl, rfl, rfl, rfl, fun _ => rfl, .inr rfl⟩

theorem mark {l : Limits} {t t' : Snapshot} {op : StateOp} (hm : op.marks = true)
    (hop : op.run l s t = some (s', t')) : s.Stays s' := by
  cases StateOp.run_moves hop with
  | markConnected | markDisconnectedAt => exact ⟨rfl, rfl, rfl, rfl, rfl, rfl, fun hd => hd, .inl rfl⟩
  | _ => cases hm

end State.Stays

/-- What the calls do that create, remove, connect and disconnect sessions. -/
structure Store.Turnover (st st' : Store) : Prop where
  limits : st'.limits = st.limits
  allocated : st.allocated ≤ st'.allocated
  kept : ∀ r < st.allocated, (st.states r).Stays (st'.states r)
  fresh : ∀ r, st.allocated ≤ r → r < st'.allocated →
    (st'.states r).allocated = 0 ∧ (st'.states r).entries = [] ∧ (st'.states r).paused = false

namespace Store.Turnover

variable {st st' st'' : Store}

theorem refl (st : Store) : st.Turnover st :=
  ⟨rfl, Nat.le_refl _, fun _ _ => .refl _, fun _ h h' => absurd h' (Nat.not_lt.mpr h)⟩

theorem trans (h : st.Turnover st') (h' : st'.Turnover st'') : st.Turnover st'' where
  limits := h'.limits.trans h.limits
  allocated := Nat.le_trans h.allocated h'.allocated
  kept r hr := (h.kept r hr).trans (h'.kept r (Nat.lt_of_lt_of_le hr h.allocated))
  fresh r hr hr' := by
    by_cases hlt : r < st'.allocated
    · have hk := h'.kept r hlt
      obtain ⟨ha, he, hp⟩ := h.fresh r hr hlt
      refine ⟨hk.allocated.trans ha, ?_, hk.paused.trans hp⟩
      rcases hk.entries with e | e
      · exact e.trans he
      · exact e
    · exact h'.fresh r (Nat.not_lt.mp hlt) hr'

theorem deleteLocked (st : Store) (id : Bytes) : st.Turnover (st.deleteLocked id) := by
  refine ⟨(removes_deleteLocked st id).limits, by simp, fun r _ => ?_, fun r h h' => ?_⟩
  · rw [deleteLocked_states]
    split
    · exact .remove _
    · exact .refl _
  · rw [deleteLocked_allocated] at h'
    exact absurd h' (Nat.not_lt.mpr h)

theorem expireLocked (st : Store) (state : Option Nat) (now : Time) :
    st.Turnover (st.expireLocked state now).2 := by
  unfold Store.expireLocked
  cases state with
  | none => exact .refl st
  | some r =>
    dsimp only
    split
    · exact .refl st
    · have h := deleteLocked st (st.states r).id
      exact ⟨h.limits, h.allocated, h.kept, h.fresh⟩

theorem expire (st : Store) (now : Time) (order : List Bytes) : st.Turnover (st.expire now order).2 := by
  have hloop : ∀ st : Store, st.Turnover (st.expireLoop now order).2 := by
    induction order with
    | nil => exact refl
    | cons id order ih => exact fun st => (expireLocked st st.data[id]? now).trans (ih _)
  unfold Store.expire
  split
  · exact .refl st
  · exact hloop st

theorem getOrCreateOwned (st : Store) (now : Time) (id owner : Bytes) :
    st.Turnover (st.getOrCreateOwned now id owner).2 := by
  unfold Store.getOrCreateOwned
  split
  · split <;> exact .refl st
  · split
    · exact ⟨rfl, Nat.le_refl _, fun _ _ => .refl _, fun _ h h' => absurd h' (Nat.not_lt.mpr h)⟩
    · refine ⟨rfl, Nat.le_succ _, fun r hr => ?_, fun r h h' => ?_⟩
      · simp only [Function.update_apply, if_neg (Nat.ne_of_lt hr)]
        exact .refl _
      · obtain rfl : r = st.allocated := Nat.le_antisymm (Nat.lt_succ_iff.mp h') h
        simp [State.new]

theorem mark (st : Store) (r : Nat) (op : StateOp) (hm : op.marks = true) {s : State} {t : Snapshot}
    (hop : op.run st.limits (st.states r) st.totals = some (s, t)) : st.Turnover (st.set r s t) := by
  refine ⟨rfl, Nat.le_refl _, fun r' _ => ?_, fun r' h h' => absurd h' (Nat.not_lt.mpr h)⟩
  simp only [Store.set, Function.update_apply]
  split
  · rename_i e
    subst e
    exact .mark hm hop
  · exact .refl _

end Store.Turnover

end OrbMQ
