import OrbMQ.Session.Turnover

/-!
# Which sessions expire

`Expire` and `ExpireSession` remove a session exactly if it is offline and its deadline has passed
(`Store.Overdue`), and leave every other session alone (`Store.expireSession_spec`, `Store.expire_spec`).
-/

namespace OrbMQ

open Go

namespace Store

variable {st st' : Store}

/-- The session is offline, at least for the time to live of sessions. -/
def Overdue (now : Time) (r : Nat) (st : Store) : Prop :=
  st.limits.offlineTTL ≠ 0 ∧ (st.states r).connected = false ∧
    ∃ since, (st.states r).offlineSince = some since ∧ st.limits.offlineTTL ≤ now - since

theorem overdue_iff (now : Time) (r : Nat) (st : Store) :
    st.Overdue now r ↔ (st.limits.offlineTTL = 0 || !(st.states r).expired st.limits.offlineTTL now) = false := by
  simp only [Overdue, State.expired, Bool.or_eq_false_iff, decide_eq_false_iff_not, Bool.not_eq_false',
    Bool.and_eq_true, Bool.not_eq_true', Option.any_eq_true]
  refine and_congr_right fun _ => and_congr_right fun _ => exists_congr fun since => and_congr_right fun _ => ?_
  rw [not_lt]

instance (now : Time) (r : Nat) (st : Store) : Decidable (st.Overdue now r) :=
  decidable_of_iff _ (overdue_iff now r st).symm

/-- What an expiry does to the session stored under an ID. -/
inductive Expires (now : Time) (st st' : Store) (id : Bytes) : Prop
  | kept : st'.data[id]? = st.data[id]? →
      (∀ r, st.data[id]? = some r → st'.states r = st.states r) → Expires now st st' id
  | removed (r : Nat) : st.data[id]? = some r → st.Overdue now r → st'.data[id]? = none → Expires now st st' id

theorem expireSession_spec (h : st.Inv) (id : Bytes) (now : Time) :
    (st.expireSession id now = (false, st) ∧ ∀ r, st.data[id]? = some r → ¬ st.Overdue now r) ∨
      ∃ r, st.data[id]? = some r ∧ st.Overdue now r ∧ st.expireSession id now = (true, st.expireRemoved id) := by
  unfold expireSession expireLocked
  split
  · rename_i hnone
    exact .inl ⟨rfl, fun r hr => by rw [hnone] at hr; cases hr⟩
  · rename_i r hr
    split
    · rename_i hover
      refine .inl ⟨rfl, fun r' hr' => ?_⟩
      obtain rfl : r = r' := Option.some.inj (hr.symm.trans hr')
      rw [overdue_iff, Bool.eq_false_iff]
      exact not_not.mpr hover
    · rename_i hover
      refine .inr ⟨r, hr, (overdue_iff now r st).mpr (by simpa using hover), ?_⟩
      rw [(h.stored id r hr).2.1]
      rfl

/-- One round of `Expire` is an `ExpireSession`. -/
theorem expireSession_expires (h : st.Inv) (id id' : Bytes) (now : Time) :
    Expires now st (st.expireSession id now).2 id' := by
  obtain ⟨e, -⟩ | ⟨r, hr, hover, e⟩ := expireSession_spec h id now
  · rw [e]
    exact .kept rfl fun _ _ => rfl
  · rw [e]
    have hdata : (st.expireRemoved id).data[id']? = _ := st.deleteLocked_data id id'
    by_cases hid : id = id'
    · subst hid
      rw [if_pos rfl] at hdata
      exact .removed r hr hover hdata
    · rw [if_neg hid] at hdata
      refine .kept hdata fun r' hr' => ?_
      have hstates : (st.expireRemoved id).states r' = _ := st.deleteLocked_states id r'
      rwa [if_neg fun e => hid (h.data_inj e hr')] at hstates

theorem expire_spec (h : st.Inv) (now : Time) (order : List Bytes) (id : Bytes) :
    Expires now st (st.expire now order).2 id := by
  -- The sessions one after the other: a session that stays is as it was when its round comes.
  have hloop : ∀ st : Store, st.Inv → Expires now st (st.expireLoop now order).2 id := by
    induction order with
    | nil => exact fun st _ => .kept rfl fun _ _ => rfl
    | cons id₀ order ih =>
      intro st h
      have hinv : (st.expireSession id₀ now).2.Inv := h.expireLocked _ now
      have hlimits : (st.expireSession id₀ now).2.limits = st.limits :=
        (Turnover.expireLocked st st.data[id₀]? now).limits
      have hrest := ih _ hinv
      show Expires now st ((st.expireSession id₀ now).2.expireLoop now order).2 id
      cases expireSession_expires h id₀ id now with
      | kept hdata hstates =>
        cases hrest with
        | kept hdata' hstates' =>
          exact .kept (hdata'.trans hdata) fun r hr => (hstates' r (hdata.trans hr)).trans (hstates r hr)
        | removed r hr hover hnone =>
          have hr₀ := hdata.symm.trans hr
          refine .removed r hr₀ ?_ hnone
          rw [Overdue, hlimits, hstates r hr₀] at hover
          exact hover
      | removed r hr hover hnone =>
        cases hrest with
        | kept hdata' => exact .removed r hr hover (hdata'.trans hnone)
        | removed r' hr' =>
          rw [hnone] at hr'
          cases hr'
  unfold expire
  split
  · exact .kept rfl fun _ _ => rfl
  · exact hloop st h

end Store

end OrbMQ
