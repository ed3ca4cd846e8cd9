import OrbMQ.Lib.Sys
import OrbMQ.Session.Account
import OrbMQ.Session.Window

/-!
# What a queue entry holds never changes

An entry gets its bytes when it is admitted. Deliveries write the packet identifier and the epoch to
the entry and patch a copy of the bytes, so whatever is called on the store afterwards, the bytes of
an entry stay the ones that were admitted (`Store.Keeps`), and `Next` returns them with an identifier
and a DUP flag (`next_delivery`).
-/

namespace OrbMQ

open Go State

/-- The entries of `s` are those of `s'`, which may have more. -/
structure State.Keeps (s s' : State) : Prop where
  allocated : s.allocated ≤ s'.allocated
  data : ∀ p < s.allocated, (s'.heap p).data = (s.heap p).data
  offset : ∀ p < s.allocated, (s'.heap p).packetIDOffset = (s.heap p).packetIDOffset

namespace State.Keeps

variable {s s' s'' : State}

theorem refl (s : State) : s.Keeps s := ⟨Nat.le_refl _, fun _ _ => rfl, fun _ _ => rfl⟩

theorem trans (h : s.Keeps s') (h' : s'.Keeps s'') : s.Keeps s'' where
  allocated := Nat.le_trans h.allocated h'.allocated
  data p hp := (h'.data p (Nat.lt_of_lt_of_le hp h.allocated)).trans (h.data p hp)
  offset p hp := (h'.offset p (Nat.lt_of_lt_of_le hp h.allocated)).trans (h.offset p hp)

/-- A call that does not touch the entries. -/
theorem of_heap (hh : s'.heap = s.heap) (ha : s'.allocated = s.allocated) : s.Keeps s' :=
  ⟨Nat.le_of_eq ha.symm, fun _ _ => by rw [hh], fun _ _ => by rw [hh]⟩

theorem append (s : State) (now : Time) (data : Bytes) (off : Int) : s.Keeps (s.append now data off) := by
  have hne : ∀ p < s.allocated, (s.append now data off).heap p = s.heap p := fun p hp => by
    simp only [State.append, State.notifyLocked, Function.update_apply, if_neg (Nat.ne_of_lt hp)]
  exact ⟨Nat.le_succ _, fun p hp => by rw [hne p hp], fun p hp => by rw [hne p hp]⟩

theorem attempt (s : State) (epoch : UInt64) (p : Nat) : s.Keeps (s.attempt epoch p) := by
  refine ⟨Nat.le_refl _, fun q _ => ?_, fun q _ => ?_⟩ <;>
  · rw [heap_attempt]
    split
    · rename_i e; rw [e]
    · rfl

theorem assign (s : State) (p : Nat) (id : UInt16) : s.Keeps (s.assign p id) := by
  refine ⟨Nat.le_refl _, fun q _ => ?_, fun q _ => ?_⟩ <;>
  · rw [heap_assign]
    split
    · rename_i e; rw [e]
    · rfl

end State.Keeps

theorem StateOp.keeps {l : Limits} {s s' : State} {t t' : Snapshot} {op : StateOp}
    (hop : op.run l s t = some (s', t')) : s.Keeps s' := by
  cases run_moves hop with
  | unadmitted | idle | unknown => exact .refl _
  | append now data off => exact .append s now data off
  | @attempt epoch p => exact .attempt s epoch p
  | @assign epoch p id => exact (Keeps.assign s p id).trans (.attempt _ epoch p)
  | _ => exact .of_heap rfl rfl

/-! ## The store -/

/-- Every session of `st`, removed or not, keeps its entries. -/
structure Store.Keeps (st st' : Store) : Prop where
  allocated : st.allocated ≤ st'.allocated
  states : ∀ r < st.allocated, (st.states r).Keeps (st'.states r)

namespace Store.Keeps

variable {st st' st'' : Store}

theorem refl (st : Store) : st.Keeps st := ⟨Nat.le_refl _, fun _ _ => .refl _⟩

theorem trans (h : st.Keeps st') (h' : st'.Keeps st'') : st.Keeps st'' where
  allocated := Nat.le_trans h.allocated h'.allocated
  states r hr := (h.states r hr).trans (h'.states r (Nat.lt_of_lt_of_le hr h.allocated))

theorem set {r : Nat} {s : State} (h : (st.states r).Keeps s) (t : Snapshot) : st.Keeps (st.set r s t) := by
  refine ⟨Nat.le_refl _, fun r' _ => ?_⟩
  simp only [Store.set, Function.update_apply]
  split
  · rename_i e; rw [e]; exact h
  · exact .refl _

theorem deleteLocked (st : Store) (id : Bytes) : st.Keeps (st.deleteLocked id) := by
  unfold Store.deleteLocked
  cases st.data[id]? with
  | none => exact .refl st
  | some r =>
    have hr : (st.states r).Keeps (st.states r).remove := .of_heap rfl rfl
    have h := set hr (release (st.states r) st.totals)
    exact ⟨h.allocated, h.states⟩

theorem expireLocked (st : Store) (state : Option Nat) (now : Time) :
    st.Keeps (st.expireLocked state now).2 := by
  unfold Store.expireLocked
  cases state with
  | none => exact .refl st
  | some r =>
    dsimp only
    split
    · exact .refl st
    · have h := deleteLocked st (st.states r).id
      exact ⟨h.allocated, h.states⟩

theorem expire (st : Store) (now : Time) (order : List Bytes) : st.Keeps (st.expire now order).2 := by
  have hloop : ∀ st : Store, st.Keeps (st.expireLoop now order).2 := by
    induction order with
    | nil => exact refl
    | cons id order ih => exact fun st => (expireLocked st st.data[id]? now).trans (ih _)
  unfold Store.expire
  split
  · exact .refl st
  · exact hloop st

theorem getOrCreateOwned (st : Store) (now : Time) (id owner : Bytes) :
    st.Keeps (st.getOrCreateOwned now id owner).2 := by
  unfold Store.getOrCreateOwned
  split
  · split <;> exact .refl st
  · split
    · exact ⟨Nat.le_refl _, fun _ _ => .refl _⟩
    · refine ⟨Nat.le_succ _, fun r hr => ?_⟩
      simp only [Function.update_apply, if_neg (Nat.ne_of_lt hr)]
      exact .refl _

end Store.Keeps

theorem StoreOp.keeps {st st' : Store} {op : StoreOp} (hop : op.step st = some st') : st.Keeps st' := by
  cases step_moves hop with
  | getOrCreateOwned now id owner => exact .getOrCreateOwned st now id owner
  | delete id => exact .deleteLocked st id
  | @expire now order => exact .expire st now order
  | expireSession id now => exact .expireLocked st st.data[id]? now
  | @on r op s t _ hrun => exact .set (op.keeps hrun) t

theorem Store.keeps_run {st st' : Store} {ops : List StoreOp}
    (h : Sys.run StoreOp.step st ops = some st') : st.Keeps st' :=
  Sys.run_invariant (I := fun st' => st.Keeps st') (.refl st) (fun _ _ _ hi hs => hi.trans (StoreOp.keeps hs)) h

/-! ## Deliveries -/

/-- What `Next` returns for the entry that it selects. -/
theorem next_delivery {l : Limits} {epoch : UInt64} {s s' : State} {t t' : Snapshot} {d : Delivery}
    {p : Nat} (h : s.next l epoch t = some (some d, s', t')) (hp : s.select epoch = some p) :
    ∃ m dup, d = delivery m dup ∧ m.packetID ≠ 0 ∧ m.data = (s.heap p).data ∧
      m.packetIDOffset = (s.heap p).packetIDOffset := by
  rcases State.next_cases h with ⟨hd, -⟩ | ⟨-, q, hq, ⟨hne, hd, -⟩ | ⟨-, id, hid, hd, -⟩⟩
  · cases hd
  · cases hp.symm.trans hq
    refine ⟨_, true, Option.some.inj hd, ?_⟩
    rw [heap_attempt, if_pos rfl]
    exact ⟨hne, rfl, rfl⟩
  · cases hp.symm.trans hq
    refine ⟨_, false, Option.some.inj hd, ?_⟩
    rw [heap_attempt, if_pos rfl, heap_assign, if_pos rfl]
    exact ⟨(freePacketID_spec hid).2, rfl, rfl⟩

end OrbMQ
