import OrbMQ.Lib.Sys
import OrbMQ.Session.Store
import OrbMQ.Session.Window

/-!
# The accounts of the store

Sessions and the store keep counters of the same things incrementally. `State.usage` and
`Snapshot.usage` are the four numbers that the store adds up over its sessions: pending messages
and bytes, messages in flight, subscriptions.

* `Settles l s t s' t'`: what one call on one session does. Its counters fit the queue, its limits
  hold, and the totals change by exactly as much as the session does.
* `Store.Inv`: the totals are the sums over the sessions of `data`. Removed sessions are empty, so a
  call through a stale handle changes no total.
* `StoreOp` are the calls, on any handle that was ever given out; `store_accounts` is the result for
  every run, and `store_window` the one about the identifiers in use.
-/

namespace OrbMQ

open Go Redelivery

namespace State

/-- The bytes of the pending messages. -/
def pendingSize (s : State) : Int := (s.entries.map fun p => ((s.heap p).data.length : Int)).sum

/-- What a session uses: pending messages and bytes, messages in flight, subscriptions. -/
def usage (s : State) : Int × Int × Int × Int :=
  (s.entries.length, s.pendingSize, s.inflight.size, s.subscriptions.size)

end State

/-- What the totals say is in use. -/
def Snapshot.usage (t : Snapshot) : Int × Int × Int × Int :=
  (t.pendingMessages, t.pendingBytes, t.inflightMessages, t.subscriptionCount)

/-- The global limits hold. -/
structure Within (l : Limits) (t : Snapshot) : Prop where
  messages : t.pendingMessages ≤ l.maxPendingMessagesGlobal
  bytes : t.pendingBytes ≤ l.maxPendingBytesGlobal
  subscriptions : t.subscriptionCount ≤ l.maxSubscriptionsGlobal

namespace State

/-- The counters and limits of one session. -/
structure Account (l : Limits) (s : State) : Prop where
  pointers : s.Pointers
  messages : s.stats.pendingMessages = s.entries.length
  bytes : s.stats.pendingBytes = s.pendingSize
  removed : s.deleted = true → s.entries = [] ∧ s.inflight = ∅ ∧ s.subscriptions = ∅
  maxMessages : (s.entries.length : Int) ≤ l.maxPendingMessagesPerSession
  maxBytes : s.pendingSize ≤ l.maxPendingBytesPerSession
  maxSubscriptions : (s.subscriptions.size : Int) ≤ l.maxSubscriptionsPerSession

/-- A call takes the session `s` and the totals `t` to `s'` and `t'`. -/
structure Settles (l : Limits) (s : State) (t : Snapshot) (s' : State) (t' : Snapshot) : Prop where
  account : s'.Account l
  within : Within l t'
  usage : t'.usage - t.usage = s'.usage - s.usage
  id : s'.id = s.id
  deleted : s'.deleted = s.deleted

variable {l : Limits} {s s' : State} {t t' : Snapshot}

theorem usage_transfer
    (messages : t'.pendingMessages - t.pendingMessages = (s'.entries.length : Int) - s.entries.length)
    (bytes : t'.pendingBytes - t.pendingBytes = s'.pendingSize - s.pendingSize)
    (inflight : t'.inflightMessages - t.inflightMessages = (s'.inflight.size : Int) - s.inflight.size)
    (subs : t'.subscriptionCount - t.subscriptionCount =
      (s'.subscriptions.size : Int) - s.subscriptions.size) :
    t'.usage - t.usage = s'.usage - s.usage := by
  simp only [Snapshot.usage, State.usage, Prod.mk_sub_mk, messages, bytes, inflight, subs]

/-- A call that touches neither the queue nor the subscriptions. -/
theorem Account.idle (h : s.Account l) (hw : Within l t) (hptr : s'.Pointers)
    (hid : s'.id = s.id) (hdel : s'.deleted = s.deleted) (hent : s'.entries = s.entries)
    (hdata : ∀ p ∈ s.entries, (s'.heap p).data = (s.heap p).data) (hinf : s'.inflight = s.inflight)
    (hsubs : s'.subscriptions = s.subscriptions)
    (hmsgs : s'.stats.pendingMessages = s.stats.pendingMessages)
    (hbytes : s'.stats.pendingBytes = s.stats.pendingBytes) (htm : t'.pendingMessages = t.pendingMessages)
    (htb : t'.pendingBytes = t.pendingBytes) (hti : t'.inflightMessages = t.inflightMessages)
    (hts : t'.subscriptionCount = t.subscriptionCount) : Settles l s t s' t' := by
  have hsize : s'.pendingSize = s.pendingSize := by
    unfold pendingSize
    rw [hent]
    congr 1
    exact List.map_congr_left fun p hp => by rw [hdata p hp]
  refine ⟨⟨hptr, ?_, ?_, ?_, ?_, ?_, ?_⟩, ⟨?_, ?_, ?_⟩, ?_, hid, hdel⟩
  · rw [hmsgs, hent, h.messages]
  · rw [hbytes, hsize, h.bytes]
  · rw [hdel, hent, hinf, hsubs]; exact h.removed
  · rw [hent]; exact h.maxMessages
  · rw [hsize]; exact h.maxBytes
  · rw [hsubs]; exact h.maxSubscriptions
  · rw [htm]; exact hw.messages
  · rw [htb]; exact hw.bytes
  · rw [hts]; exact hw.subscriptions
  · simp only [Snapshot.usage, State.usage, htm, htb, hti, hts, hent, hsize, hinf, hsubs, sub_self]

theorem Account.append (h : s.Account l) (hw : Within l t) (hd : s.deleted = false) (now : Time)
    (data : Bytes) (off : Int) (hr : dropReason l data.length s t = none) :
    Settles l s t (s.append now data off) (addPending data.length t) := by
  have hsize : (s.append now data off).pendingSize = s.pendingSize + data.length := by
    unfold pendingSize
    simp only [State.append, State.notifyLocked, List.map_append, List.sum_append, List.map_cons, List.map_nil,
      List.sum_singleton, Function.update_self]
    congr 2
    apply List.map_congr_left
    intro p hp
    rw [Function.update_of_ne (Nat.ne_of_lt (h.pointers.bound p hp))]
  -- The message fits all four budgets.
  have hfits : s.stats.pendingMessages < l.maxPendingMessagesPerSession ∧
      (data.length : Int) ≤ l.maxPendingBytesPerSession - s.stats.pendingBytes ∧
      t.pendingMessages < l.maxPendingMessagesGlobal ∧
      (data.length : Int) ≤ l.maxPendingBytesGlobal - t.pendingBytes := by
    unfold dropReason at hr
    split at hr
    · cases hr
    · split at hr
      · cases hr
      · omega
  have hlen : (s.append now data off).entries.length = s.entries.length + 1 := by
    simp [State.append]
  have hm := h.messages
  have hb := h.bytes
  refine ⟨⟨h.pointers.append now data off, ?_, ?_, ?_, ?_, ?_, h.maxSubscriptions⟩, ⟨?_, ?_, hw.subscriptions⟩,
    ?_, rfl, rfl⟩
  · rw [hlen]
    simp [State.append, addPending, hm]
  · rw [hsize]
    simp [State.append, addPending, hb]
  · intro hdel
    exact absurd (hd.symm.trans hdel) (by decide)
  · rw [hlen]
    omega
  · rw [hsize]
    omega
  · dsimp only [addPending]
    omega
  · dsimp only [addPending]
    omega
  · apply usage_transfer
    · rw [hlen]
      dsimp only [addPending]
      omega
    · rw [hsize]
      dsimp only [addPending]
      omega
    · dsimp only [addPending, State.append, notifyLocked]
      omega
    · dsimp only [addPending, State.append, notifyLocked]
      omega

theorem Account.admitMessage (h : s.Account l) (hw : Within l t) {now : Time} {data : Bytes} {off : Int}
    {r : Except Err (Option DropReason)} (ha : s.admitMessage l now data off t = (r, s', t')) :
    Settles l s t s' t' := by
  have hptr := h.pointers.admitMessage ha
  rcases admit_cases ha with ⟨rfl, rfl, -⟩ | ⟨-, hd, ⟨d, -, -, rfl, rfl⟩ | ⟨hr, -, rfl, rfl⟩⟩
  · exact h.idle hw hptr rfl rfl rfl (fun _ _ => rfl) rfl rfl rfl rfl rfl rfl rfl rfl
  · cases d <;> exact h.idle hw hptr rfl rfl rfl (fun _ _ => rfl) rfl rfl rfl rfl rfl rfl rfl rfl
  · exact h.append hw hd now data off hr

theorem Account.next (h : s.Account l) (hw : Within l t) {epoch : UInt64} {r : Option Delivery}
    (hn : s.next l epoch t = some (r, s', t')) : Settles l s t s' t' := by
  have hptr := h.pointers.next hn
  rcases State.next_cases hn with ⟨-, rfl, rfl⟩ | ⟨hready, p, hp, ⟨-, -, rfl, rfl⟩ | ⟨-, id, hid, -, rfl, rfl⟩⟩
  · exact h.idle hw hptr rfl rfl rfl (fun _ _ => rfl) rfl rfl rfl rfl rfl rfl rfl rfl
  · refine h.idle hw hptr rfl rfl rfl (fun q _ => ?_) rfl rfl rfl rfl rfl rfl rfl rfl
    rw [heap_attempt]
    split
    · rename_i hq; rw [hq]
    · rfl
  · -- The same queue with one more message in flight.
    have hfree := (freePacketID_spec hid).1
    have hsize : ((s.assign p id).attempt epoch p).pendingSize = s.pendingSize := by
      unfold pendingSize
      congr 1
      apply List.map_congr_left
      intro q _
      rw [heap_attempt, heap_assign, heap_assign]
      split
      · rename_i hq; rw [hq, if_pos rfl]
      · rfl
    have hinf : ((s.assign p id).attempt epoch p).inflight = s.inflight.insert id p := rfl
    refine ⟨⟨hptr, h.messages, hsize ▸ h.bytes, ?_, h.maxMessages, hsize ▸ h.maxBytes, h.maxSubscriptions⟩,
      ⟨hw.messages, hw.bytes, hw.subscriptions⟩, ?_, rfl, rfl⟩
    · intro hdel
      exact absurd (hready.live.symm.trans hdel) (by decide)
    · apply usage_transfer
      · dsimp only [State.attempt, State.assign, setEntry]
        omega
      · rw [hsize]
        dsimp only
        omega
      · rw [hinf, Map.size_insert_new _ _ hfree]
        push_cast
        omega
      · dsimp only [State.attempt, State.assign, setEntry]
        omega

theorem Account.ack (h : s.Account l) (hw : Within l t) {id : UInt16} (ha : s.ack id t = (s', t')) :
    Settles l s t s' t' := by
  have hptr : s'.Pointers := by
    have := h.pointers.ack id t
    rwa [ha] at this
  by_cases hno : s.inflight[id]? = none ∨ s.deleted = true
  · rw [ack_of_none hno] at ha
    cases ha
    exact h.idle hw hptr rfl rfl rfl (fun _ _ => rfl) rfl rfl rfl rfl rfl rfl rfl rfl
  · simp only [not_or, Bool.not_eq_true] at hno
    obtain ⟨p, hp⟩ := Option.ne_none_iff_exists'.mp hno.1
    rw [ack_of_some hp hno.2] at ha
    obtain ⟨rfl, rfl⟩ := Prod.mk.inj ha
    have hpe : p ∈ s.entries := ((h.pointers.inflight id p).mp hp).1
    have hlen : ((s.entries.erase p).length : Int) = s.entries.length - 1 := by
      have h1 := List.length_erase_of_mem hpe
      have h2 := List.length_pos_of_mem hpe
      omega
    have hsum := List.sum_map_erase (fun q => ((s.heap q).data.length : Int)) hpe
    have hm := h.messages
    have hb := h.bytes
    have hmm := h.maxMessages
    have hmb := h.maxBytes
    have hwm := hw.messages
    have hwb := hw.bytes
    have hs := Map.size_erase_some _ hp
    unfold pendingSize at hb hmb
    refine ⟨⟨hptr, ?_, ?_, ?_, ?_, ?_, h.maxSubscriptions⟩, ⟨?_, ?_, hw.subscriptions⟩, ?_, rfl, rfl⟩
    · dsimp only [removePending]
      omega
    · dsimp only [removePending, pendingSize]
      omega
    · intro hdel
      exact absurd (hno.2.symm.trans hdel) (by decide)
    · dsimp only
      omega
    · dsimp only [pendingSize]
      omega
    · dsimp only [removePending]
      omega
    · dsimp only [removePending]
      omega
    · apply usage_transfer <;> dsimp only [removePending, pendingSize] <;> omega

/-- A call that changes nothing the accounts are about. -/
theorem Account.untouched (h : s.Account l) (hw : Within l t) (hid : s'.id = s.id)
    (hdel : s'.deleted = s.deleted) (hent : s'.entries = s.entries) (halloc : s'.allocated = s.allocated)
    (hheap : s'.heap = s.heap) (hinf : s'.inflight = s.inflight) (hsubs : s'.subscriptions = s.subscriptions)
    (hstats : s'.stats = s.stats) : Settles l s t s' t := by
  have hptr : s'.Pointers := h.pointers.congr hent halloc hinf fun _ _ => by rw [hheap]
  refine h.idle hw hptr hid hdel hent (fun _ _ => by rw [hheap]) hinf hsubs ?_ ?_ rfl rfl rfl rfl
  · rw [hstats]
  · rw [hstats]

theorem Account.markConnected (h : s.Account l) (hw : Within l t) : Settles l s t s.markConnected t := by
  obtain ⟨c, o, e⟩ := s.markConnected_state
  rw [e]
  exact h.untouched hw rfl rfl rfl rfl rfl rfl rfl rfl

theorem Account.markDisconnectedAt (h : s.Account l) (hw : Within l t) (now : Time) :
    Settles l s t (s.markDisconnectedAt now) t := by
  obtain ⟨c, o, e⟩ := s.markDisconnectedAt_state now
  rw [e]
  exact h.untouched hw rfl rfl rfl rfl rfl rfl rfl rfl

/-- A change of the subscriptions alone. -/
theorem Account.subscriptions (h : s.Account l) (hw : Within l t) {subs : Go.Map Bytes UInt8}
    {count : Int} (hrem : s.deleted = true → subs = ∅)
    (hmax : (subs.size : Int) ≤ l.maxSubscriptionsPerSession) (hglob : count ≤ l.maxSubscriptionsGlobal)
    (htransfer : count - t.subscriptionCount = (subs.size : Int) - s.subscriptions.size) :
    Settles l s t { s with subscriptions := subs } { t with subscriptionCount := count } := by
  refine ⟨⟨h.pointers.congr rfl rfl rfl fun _ _ => rfl, h.messages, h.bytes, ?_, h.maxMessages, h.maxBytes,
    hmax⟩, ⟨hw.messages, hw.bytes, hglob⟩, ?_, rfl, rfl⟩
  · intro hdel
    exact ⟨(h.removed hdel).1, (h.removed hdel).2.1, hrem hdel⟩
  · apply usage_transfer
    · dsimp only; omega
    · dsimp only [pendingSize]; omega
    · dsimp only; omega
    · exact htransfer

theorem Account.setSubscription (h : s.Account l) (hw : Within l t) {filter : Bytes} {qos : UInt8}
    {r : Except Err Unit} (hs : s.setSubscription l filter qos t = (r, s', t')) :
    Settles l s t s' t' := by
  have hidle : ∀ {t' : Snapshot}, t'.pendingMessages = t.pendingMessages →
      t'.pendingBytes = t.pendingBytes → t'.inflightMessages = t.inflightMessages →
      t'.subscriptionCount = t.subscriptionCount → Settles l s t s t' :=
    h.idle hw h.pointers rfl rfl rfl (fun _ _ => rfl) rfl rfl rfl rfl
  unfold State.setSubscription at hs
  split at hs
  · cases hs; exact hidle rfl rfl rfl rfl
  · rename_i hdel
    split at hs
    · cases hs; exact hidle rfl rfl rfl rfl
    · split at hs
      · -- An update of a filter that is there.
        rename_i hold
        cases hs
        obtain ⟨q, hq⟩ := Option.ne_none_iff_exists'.mp hold
        have hsize : (s.subscriptions.insert filter qos).size = s.subscriptions.size :=
          Map.size_insert_old s.subscriptions hq
        refine h.subscriptions hw (fun hd => absurd hd hdel) ?_ hw.subscriptions ?_
        · rw [hsize]; exact h.maxSubscriptions
        · rw [hsize]; omega
      · rename_i hnew
        have hsize := Map.size_insert_new s.subscriptions qos (not_not.mp hnew)
        split at hs
        · cases hs; exact hidle rfl rfl rfl rfl
        · rename_i hroom
          cases hs
          refine h.subscriptions hw (fun hd => absurd hd hdel) ?_ ?_ ?_
          · rw [hsize]; push_cast; omega
          · omega
          · rw [hsize]; push_cast; omega

theorem Account.deleteSubscription (h : s.Account l) (hw : Within l t) {filter : Bytes}
    (hs : s.deleteSubscription filter t = (s', t')) : Settles l s t s' t' := by
  unfold State.deleteSubscription at hs
  split at hs
  · rename_i hold
    cases hs
    obtain ⟨q, hq⟩ := Option.ne_none_iff_exists'.mp hold
    have hsize := Map.size_erase_some s.subscriptions hq
    have hmax := h.maxSubscriptions
    have hglob := hw.subscriptions
    refine h.subscriptions hw ?_ (by omega) (by omega) (by omega)
    intro hd
    rw [(h.removed hd).2.2] at hq
    simp at hq
  · cases hs
    exact h.untouched hw rfl rfl rfl rfl rfl rfl rfl rfl

end State

/-! ## The store -/

namespace Store

/-- What holds of every store. -/
structure Inv (st : Store) : Prop where
  valid : st.limits.Valid
  accounts : ∀ r, (st.states r).Account st.limits
  stored : ∀ (id : Bytes) r, st.data[id]? = some r →
    r < st.allocated ∧ (st.states r).id = id ∧ (st.states r).deleted = false
  live : ∀ r < st.allocated, (st.states r).deleted = false → st.data[(st.states r).id]? = some r
  usage : st.totals.usage = Map.sum (fun r => (st.states r).usage) st.data
  within : Within st.limits st.totals
  sessions : (st.data.size : Int) ≤ st.limits.maxSessions

variable {st : Store}

theorem Inv.data_inj (h : st.Inv) {id id' : Bytes} {r : Nat} (hr : st.data[id]? = some r)
    (hr' : st.data[id']? = some r) : id = id' :=
  (h.stored id r hr).2.1.symm.trans (h.stored id' r hr').2.1

/-- A call on one session, through any handle that was given out. -/
theorem Inv.set (h : st.Inv) {r : Nat} (hr : r < st.allocated) {s : State} {t : Snapshot}
    (hs : State.Settles st.limits (st.states r) st.totals s t) : (st.set r s t).Inv := by
  have hstates : ∀ r', (st.set r s t).states r' = if r' = r then s else st.states r' := fun r' => by
    simp only [Store.set, Function.update_apply]
  refine ⟨h.valid, ?_, ?_, ?_, ?_, hs.within, h.sessions⟩
  · intro r'
    rw [hstates]
    split
    · exact hs.account
    · exact h.accounts r'
  · intro id r' hd
    obtain ⟨ha, hid, hdel⟩ := h.stored id r' hd
    rw [hstates]
    split
    · rename_i e
      subst e
      exact ⟨ha, hs.id.trans hid, hs.deleted.trans hdel⟩
    · exact ⟨ha, hid, hdel⟩
  · intro r' ha hdel
    rw [hstates] at hdel ⊢
    split at hdel
    · rename_i e
      subst e
      rw [if_pos rfl, hs.id]
      exact h.live r' ha (hs.deleted.symm.trans hdel)
    · rename_i e
      rw [if_neg e]
      exact h.live r' ha hdel
  · have htotal : t.usage = st.totals.usage + (s.usage - (st.states r).usage) := by
      rw [← hs.usage]; abel
    change t.usage = Map.sum (fun r' => ((st.set r s t).states r').usage) st.data
    rw [htotal, h.usage]
    by_cases hdel : (st.states r).deleted = true
    · -- A removed session is in no sum, and uses nothing before and after.
      have hzero : ∀ s' : State, s'.Account st.limits → s'.deleted = true → s'.usage = 0 := by
        intro s' hacc hd
        obtain ⟨he, hi, hsub⟩ := hacc.removed hd
        simp [State.usage, State.pendingSize, he, hi, hsub]
      rw [hzero s hs.account (hs.deleted.trans hdel), hzero _ (h.accounts r) hdel, sub_self, add_zero]
      apply Map.sum_congr
      intro id r' hd
      rw [hstates, if_neg]
      rintro rfl
      rw [(h.stored id r' hd).2.2] at hdel
      cases hdel
    · have hd := h.live r hr (by simpa using hdel)
      rw [Map.sum_update (fun r' => (st.states r').usage) (fun r' => ((st.set r s t).states r').usage)
        st.data hd]
      · rw [hstates, if_pos rfl]
      · intro id r' hne hd'
        rw [hstates, if_neg]
        rintro rfl
        exact hne (h.stored id r' hd').2.1.symm

/-- A counter of rejections or expiries changes nothing else. -/
theorem Inv.count (h : st.Inv) {t : Snapshot} (ht : t.usage = st.totals.usage) :
    ({ st with totals := t } : Store).Inv := by
  have hw := h.within
  simp only [Snapshot.usage, Prod.mk.injEq] at ht
  refine ⟨h.valid, h.accounts, h.stored, h.live, ?_, ⟨?_, ?_, ?_⟩, h.sessions⟩
  · rw [← h.usage]
    simp [Snapshot.usage, ht]
  · rw [ht.1]; exact hw.messages
  · rw [ht.2.1]; exact hw.bytes
  · rw [ht.2.2.2]; exact hw.subscriptions

/-- A session without messages and subscriptions. -/
theorem account_empty {l : Limits} (hl : l.Valid) {s : State} (he : s.entries = []) (hi : s.inflight = ∅)
    (hs : s.subscriptions = ∅) (hm : s.stats.pendingMessages = 0) (hb : s.stats.pendingBytes = 0) :
    s.Account l := by
  have h1 := hl.positive
  have h2 := hl.pending
  refine ⟨.empty he hi, by simp [hm, he], by simp [hb, State.pendingSize, he], fun _ => ⟨he, hi, hs⟩, ?_, ?_, ?_⟩
  · simp only [he, List.length_nil]; omega
  · simp only [State.pendingSize, he, List.map_nil, List.sum_nil]; omega
  · simp [hs]; omega

theorem inv_new {l : Limits} (hl : l.Valid) : ({ limits := l } : Store).Inv := by
  have h1 := hl.positive
  have h2 := hl.pending
  refine ⟨hl, fun r => account_empty hl rfl rfl rfl rfl rfl, by simp, nofun, ?_, ⟨?_, ?_, ?_⟩, ?_⟩
  · rw [Map.sum_empty]; rfl
  · dsimp only; omega
  · dsimp only; omega
  · dsimp only; omega
  · simp; omega

/-- A new session uses nothing. -/
theorem Inv.create (h : st.Inv) (now : Time) {id : Bytes} (owner : Bytes) (hnew : st.data[id]? = none)
    (hroom : (st.data.size : Int) < st.limits.maxSessions) :
    ({ st with
        states := Function.update st.states st.allocated (State.new id owner now)
        allocated := st.allocated + 1
        data := st.data.insert id st.allocated } : Store).Inv := by
  have hold : ∀ (id' : Bytes) r, st.data[id']? = some r →
      Function.update st.states st.allocated (State.new id owner now) r = st.states r := fun id' r hr =>
    Function.update_of_ne (Nat.ne_of_lt (h.stored id' r hr).1) _ _
  refine ⟨h.valid, ?_, ?_, ?_, ?_, h.within, ?_⟩
  · intro r
    dsimp only
    rw [Function.update_apply]
    split
    · exact account_empty h.valid rfl rfl rfl rfl rfl
    · exact h.accounts r
  · intro id' r hr
    dsimp only at hr ⊢
    rw [Map.get_insert] at hr
    split at hr
    · rename_i e
      cases hr
      rw [Function.update_self]
      exact ⟨Nat.lt_succ_self _, e, rfl⟩
    · obtain ⟨ha, hid, hdel⟩ := h.stored id' r hr
      rw [hold id' r hr]
      exact ⟨Nat.lt_succ_of_lt ha, hid, hdel⟩
  · intro r ha hdel
    dsimp only at ha hdel ⊢
    rw [Map.get_insert]
    by_cases e : r = st.allocated
    · subst e
      rw [Function.update_self]
      exact if_pos rfl
    · rw [Function.update_of_ne e] at hdel ⊢
      have hd := h.live r (by omega) hdel
      rw [if_neg]
      · exact hd
      · rintro rfl
        rw [hnew] at hd
        cases hd
  · dsimp only
    rw [Map.sum_insert_new _ _ _ hnew, Function.update_self]
    have hzero : (State.new id owner now).usage = 0 := by
      simp [State.usage, State.pendingSize, State.new]
    rw [hzero, add_zero, h.usage]
    apply Map.sum_congr
    intro id' r hr
    rw [hold id' r hr]
  · dsimp only
    rw [Map.size_insert_new _ _ hnew]
    push_cast
    omega

theorem Inv.deleteLocked (h : st.Inv) (id : Bytes) : (st.deleteLocked id).Inv := by
  unfold Store.deleteLocked
  cases hid : st.data[id]? with
  | none => exact h
  | some r =>
    obtain ⟨ha, hrid, hlive⟩ := h.stored id r hid
    have hacc := h.accounts r
    have hstates : ∀ (id' : Bytes) r', (st.data.erase id)[id']? = some r' →
        st.data[id']? = some r' ∧ r' ≠ r := by
      intro id' r' hr'
      rw [Map.get_erase] at hr'
      split at hr'
      · cases hr'
      · rename_i hne
        refine ⟨hr', ?_⟩
        rintro rfl
        exact hne (hrid.symm.trans (h.stored id' r' hr').2.1)
    have husage : (release (st.states r) st.totals).usage = st.totals.usage - (st.states r).usage := by
      simp [Snapshot.usage, release, State.usage, hacc.messages, hacc.bytes]
    have hsum := h.usage
    rw [Map.sum_erase _ _ hid] at hsum
    refine ⟨h.valid, ?_, ?_, ?_, ?_, ?_, ?_⟩
    · intro r'
      simp only [Store.set, Function.update_apply]
      split
      · exact account_empty h.valid rfl rfl rfl rfl rfl
      · exact h.accounts r'
    · intro id' r' hr'
      obtain ⟨hr', hne⟩ := hstates id' r' hr'
      simp only [Store.set]
      rw [Function.update_of_ne hne]
      exact h.stored id' r' hr'
    · intro r' ha' hdel
      simp only [Store.set, Function.update_apply] at ha' hdel ⊢
      split at hdel
      · cases hdel
      · rename_i hne
        rw [if_neg hne, Map.get_erase]
        have hd := h.live r' ha' hdel
        rw [if_neg]
        · exact hd
        · rintro e
          rw [← e, hid] at hd
          cases hd
          exact hne rfl
    · change (release (st.states r) st.totals).usage = _
      rw [husage, hsum, add_sub_cancel_right]
      apply Map.sum_congr
      intro id' r' hr'
      simp only [Store.set]
      rw [Function.update_of_ne (hstates id' r' hr').2]
    · -- Removing a session only frees capacity.
      have hw := h.within
      have hm := hacc.messages
      have hb := hacc.bytes
      have hbnn : 0 ≤ (st.states r).pendingSize := List.sum_nonneg (by simp)
      refine ⟨?_, ?_, ?_⟩
      · have := hw.messages
        dsimp only [Store.set, release]
        omega
      · have := hw.bytes
        dsimp only [Store.set, release]
        omega
      · have := hw.subscriptions
        dsimp only [Store.set, release]
        omega
    · have h1 := Map.size_erase_some _ hid
      have h2 := h.sessions
      dsimp only [Store.set]
      omega

theorem Inv.expireLocked (h : st.Inv) (state : Option Nat) (now : Time) :
    (st.expireLocked state now).2.Inv := by
  unfold Store.expireLocked
  cases state with
  | none => exact h
  | some r =>
    dsimp only
    split
    · exact h
    · exact (h.deleteLocked _).count rfl

theorem Inv.expireLoop (h : st.Inv) (now : Time) (order : List Bytes) :
    (Store.expireLoop now order st).2.Inv := by
  induction order generalizing st with
  | nil => exact h
  | cons id order ih => exact ih (h.expireLocked _ now)

theorem Inv.expire (h : st.Inv) (now : Time) (order : List Bytes) : (st.expire now order).2.Inv := by
  unfold Store.expire
  split
  · exact h
  · exact h.expireLoop now order

theorem Inv.getOrCreateOwned (h : st.Inv) (now : Time) (id owner : Bytes) :
    (st.getOrCreateOwned now id owner).2.Inv := by
  unfold Store.getOrCreateOwned
  split
  · split <;> exact h
  · rename_i hnew
    split
    · exact h.count rfl
    · exact h.create now owner hnew (by omega)

end Store

/-! ## Runs -/

/-- A call on a session. -/
inductive StateOp where
  | setSubscription (filter : Bytes) (qos : UInt8)
  | deleteSubscription (filter : Bytes)
  | admitMessage (now : Time) (data : Bytes) (packetIDOffset : Int)
  | beginDelivery
  | pauseDelivery
  | resumeDelivery
  | next (epoch : UInt64)
  | ack (packetID : UInt16)
  | markConnected
  | markDisconnectedAt (at' : Time)
  | changed

/-- The session and the totals after a call; `none` if it does not return. -/
def StateOp.run (l : Limits) (s : State) (t : Snapshot) : StateOp → Option (State × Snapshot)
  | setSubscription filter qos => some (s.setSubscription l filter qos t).2
  | deleteSubscription filter => some (s.deleteSubscription filter t)
  | admitMessage now data off => some (s.admitMessage l now data off t).2
  | beginDelivery => some (s.beginDelivery.2, t)
  | pauseDelivery => some (s.pauseDelivery, t)
  | resumeDelivery => some (s.resumeDelivery, t)
  | next epoch => (s.next l epoch t).map Prod.snd
  | ack id => some (s.ack id t)
  | markConnected => some (s.markConnected, t)
  | markDisconnectedAt at' => some (s.markDisconnectedAt at', t)
  | changed => s.receiveChanged.map fun s => (s, t)

/-- A call on the store, or on a session through a handle that was given out. -/
inductive StoreOp where
  | getOrCreateOwned (now : Time) (id owner : Bytes)
  | delete (id : Bytes)
  | expire (now : Time) (order : List Bytes)
  | expireSession (id : Bytes) (now : Time)
  | on (r : Nat) (op : StateOp)

def StoreOp.step (st : Store) : StoreOp → Option Store
  | getOrCreateOwned now id owner => some (st.getOrCreateOwned now id owner).2
  | delete id => some (st.delete id)
  | expire now order => if Map.Ranges st.data order then some (st.expire now order).2 else none
  | expireSession id now => some (st.expireSession id now).2
  | on r op =>
    if r < st.allocated then
      (op.run st.limits (st.states r) st.totals).map fun (s, t) => st.set r s t
    else none

/-- What a call does to its session. -/
inductive StateOp.Moves (l : Limits) (s : State) : StateOp → State → Prop
  | setSubscription {filter : Bytes} {qos : UInt8} (subs : Go.Map Bytes UInt8) :
      Moves l s (.setSubscription filter qos) { s with subscriptions := subs }
  | deleteSubscription {filter : Bytes} (subs : Go.Map Bytes UInt8) :
      Moves l s (.deleteSubscription filter) { s with subscriptions := subs }
  | unadmitted {now : Time} {data : Bytes} {off : Int} : Moves l s (.admitMessage now data off) s
  | dropped {now : Time} {data : Bytes} {off : Int} (d : DropReason) :
      Moves l s (.admitMessage now data off) { s with stats := State.countDrop d s.stats }
  | append (now : Time) (data : Bytes) (off : Int) : Moves l s (.admitMessage now data off) (s.append now data off)
  | beginDelivery : Moves l s .beginDelivery s.beginDelivery.2
  | pauseDelivery : Moves l s .pauseDelivery s.pauseDelivery
  | resumeDelivery : Moves l s .resumeDelivery s.resumeDelivery
  | idle {epoch : UInt64} : Moves l s (.next epoch) s
  | attempt {epoch : UInt64} {p : Nat} : State.Ready l epoch s → s.select epoch = some p → (s.heap p).packetID ≠ 0 →
      Moves l s (.next epoch) (s.attempt epoch p)
  | assign {epoch : UInt64} {p : Nat} {id : UInt16} : State.Ready l epoch s → s.select epoch = some p →
      (s.heap p).packetID = 0 → Moves l s (.next epoch) ((s.assign p id).attempt epoch p)
  | unknown {id : UInt16} : Moves l s (.ack id) s
  | ack {id : UInt16} {p : Nat} : s.inflight[id]? = some p → s.deleted = false → Moves l s (.ack id) { s with
      inflight := s.inflight.erase id
      activeInflight := if (s.heap p).lastEpoch = s.epoch then s.activeInflight - 1 else s.activeInflight
      entries := s.entries.erase p
      stats := State.removePending (s.heap p).data.length s.stats
      changed := true }
  | markConnected (connected : Bool) (offlineSince : Option Time) :
      Moves l s .markConnected { s with connected, offlineSince }
  | markDisconnectedAt {now : Time} (connected : Bool) (offlineSince : Option Time) :
      Moves l s (.markDisconnectedAt now) { s with connected, offlineSince }
  | changed : Moves l s .changed { s with changed := false }

theorem StateOp.run_moves {l : Limits} {s s' : State} {t t' : Snapshot} {op : StateOp}
    (hop : op.run l s t = some (s', t')) : op.Moves l s s' := by
  cases op with
  | setSubscription filter qos =>
    obtain ⟨subs, e⟩ := s.setSubscription_state l filter qos t
    obtain rfl := (congrArg Prod.fst (Option.some.inj hop)).symm.trans e
    exact .setSubscription subs
  | deleteSubscription filter =>
    obtain ⟨subs, e⟩ := s.deleteSubscription_state filter t
    obtain rfl := (congrArg Prod.fst (Option.some.inj hop)).symm.trans e
    exact .deleteSubscription subs
  | admitMessage now data off =>
    have ha : s.admitMessage l now data off t = ((s.admitMessage l now data off t).1, s', t') :=
      Prod.ext rfl (Option.some.inj hop)
    obtain ⟨rfl, -⟩ | ⟨-, -, ⟨d, -, -, rfl, -⟩ | ⟨-, -, rfl, -⟩⟩ := State.admit_cases ha
    · exact .unadmitted
    · exact .dropped d
    · exact .append now data off
  | beginDelivery =>
    cases hop
    exact .beginDelivery
  | pauseDelivery =>
    cases hop
    exact .pauseDelivery
  | resumeDelivery =>
    cases hop
    exact .resumeDelivery
  | next epoch =>
    obtain ⟨⟨r, s₁, t₁⟩, hn, he⟩ := Option.map_eq_some_iff.mp hop
    cases he
    obtain ⟨-, rfl, -⟩ | ⟨hr, p, hsel, ⟨hp, -, rfl, -⟩ | ⟨hp, id, -, -, rfl, -⟩⟩ := State.next_cases hn
    · exact .idle
    · exact .attempt hr hsel hp
    · exact .assign hr hsel hp
  | ack id =>
    by_cases hno : s.inflight[id]? = none ∨ s.deleted = true
    · rw [run, State.ack_of_none hno] at hop
      cases hop
      exact .unknown
    · simp only [not_or, Bool.not_eq_true] at hno
      obtain ⟨p, hp⟩ := Option.ne_none_iff_exists'.mp hno.1
      rw [run, State.ack_of_some hp hno.2] at hop
      cases hop
      exact .ack hp hno.2
  | markConnected =>
    obtain ⟨c, o, e⟩ := s.markConnected_state
    obtain rfl := (congrArg Prod.fst (Option.some.inj hop)).symm.trans e
    exact .markConnected c o
  | markDisconnectedAt now =>
    obtain ⟨c, o, e⟩ := s.markDisconnectedAt_state now
    obtain rfl := (congrArg Prod.fst (Option.some.inj hop)).symm.trans e
    exact .markDisconnectedAt c o
  | changed =>
    obtain ⟨s₁, hs, he⟩ := Option.map_eq_some_iff.mp hop
    cases he
    obtain rfl := State.receiveChanged_eq hs
    exact .changed

theorem StateOp.settles {l : Limits} {s s' : State} {t t' : Snapshot} (h : s.Account l)
    (hw : Within l t) (op : StateOp) (hop : op.run l s t = some (s', t')) :
    State.Settles l s t s' t' := by
  cases op with
  | setSubscription filter qos => exact h.setSubscription hw (Prod.ext rfl (Option.some.inj hop))
  | deleteSubscription filter => exact h.deleteSubscription hw (Option.some.inj hop)
  | admitMessage now data off => exact h.admitMessage hw (Prod.ext rfl (Option.some.inj hop))
  | beginDelivery =>
    cases hop
    exact h.untouched hw rfl rfl rfl rfl rfl rfl rfl rfl
  | pauseDelivery =>
    cases hop
    exact h.untouched hw rfl rfl rfl rfl rfl rfl rfl rfl
  | resumeDelivery =>
    cases hop
    exact h.untouched hw rfl rfl rfl rfl rfl rfl rfl rfl
  | next epoch =>
    obtain ⟨⟨r, s₁, t₁⟩, hn, he⟩ := Option.map_eq_some_iff.mp hop
    cases he
    exact h.next hw hn
  | ack id => exact h.ack hw (Option.some.inj hop)
  | markConnected =>
    cases hop
    exact h.markConnected hw
  | markDisconnectedAt now =>
    cases hop
    exact h.markDisconnectedAt hw now
  | changed =>
    obtain ⟨s₁, hs, he⟩ := Option.map_eq_some_iff.mp hop
    cases he
    obtain rfl := State.receiveChanged_eq hs
    exact h.untouched hw rfl rfl rfl rfl rfl rfl rfl rfl

/-- What a call does to the store. -/
inductive StoreOp.Moves (st : Store) : StoreOp → Store → Prop
  | getOrCreateOwned (now : Time) (id owner : Bytes) :
      Moves st (.getOrCreateOwned now id owner) (st.getOrCreateOwned now id owner).2
  | delete (id : Bytes) : Moves st (.delete id) (st.delete id)
  | expire {now : Time} {order : List Bytes} : Map.Ranges st.data order →
      Moves st (.expire now order) (st.expire now order).2
  | expireSession (id : Bytes) (now : Time) : Moves st (.expireSession id now) (st.expireSession id now).2
  | on {r : Nat} {op : StateOp} {s : State} {t : Snapshot} : r < st.allocated →
      op.run st.limits (st.states r) st.totals = some (s, t) → Moves st (.on r op) (st.set r s t)

theorem StoreOp.step_moves {st st' : Store} {op : StoreOp} (hop : op.step st = some st') : op.Moves st st' := by
  cases op with
  | getOrCreateOwned now id owner =>
    cases hop
    exact .getOrCreateOwned now id owner
  | delete id =>
    cases hop
    exact .delete id
  | expire now order =>
    simp only [step] at hop
    split at hop
    · cases hop
      exact .expire ‹_›
    · cases hop
  | expireSession id now =>
    cases hop
    exact .expireSession id now
  | on r op =>
    simp only [step] at hop
    split at hop
    · obtain ⟨⟨s, t⟩, hrun, rfl⟩ := Option.map_eq_some_iff.mp hop
      exact .on ‹_› hrun
    · cases hop

theorem StoreOp.step_inv {st st' : Store} (h : st.Inv) (op : StoreOp) (hop : op.step st = some st') :
    st'.Inv := by
  cases step_moves hop with
  | getOrCreateOwned now id owner => exact h.getOrCreateOwned now id owner
  | delete id => exact h.deleteLocked id
  | @expire now order => exact h.expire now order
  | expireSession id now => exact h.expireLocked _ now
  | @on r op s t hr hrun => exact h.set hr (op.settles (h.accounts r) h.within hrun)

theorem newWithLimits_ok {l : Limits} {st : Store} (h : Store.newWithLimits l = .ok st) :
    l.Valid ∧ st = { limits := l } := by
  unfold Store.newWithLimits at h
  cases hv : l.validate with
  | error e => rw [hv] at h; cases h
  | ok u =>
    rw [hv] at h
    cases h
    exact ⟨l.validate_iff.mp hv, rfl⟩

/-- The counters of the store are exact, and its limits hold. -/
structure Accounts (st : Store) : Prop where
  /-- Live are the sessions of `data`. -/
  live : ∀ r < st.allocated, (st.states r).deleted = false ↔ ∃ id : Bytes, st.data[id]? = some r
  /-- The counters of a live session are those of its queue. -/
  session : ∀ (id : Bytes) r, st.data[id]? = some r →
    (st.states r).stats.pendingMessages = (st.states r).entries.length ∧
    (st.states r).stats.pendingBytes = (st.states r).pendingSize
  /-- The totals of pending messages and bytes, messages in flight and subscriptions are the sums
  over the sessions. -/
  totals : st.totals.usage = Map.sum (fun r => (st.states r).usage) st.data
  nonneg : 0 ≤ st.totals.usage ∧ ∀ (id : Bytes) r, st.data[id]? = some r →
    0 ≤ (st.states r).stats.pendingMessages ∧ 0 ≤ (st.states r).stats.pendingBytes
  sessionLimits : ∀ (id : Bytes) r, st.data[id]? = some r →
    ((st.states r).entries.length : Int) ≤ st.limits.maxPendingMessagesPerSession ∧
    (st.states r).pendingSize ≤ st.limits.maxPendingBytesPerSession ∧
    ((st.states r).subscriptions.size : Int) ≤ st.limits.maxSubscriptionsPerSession
  globalLimits : (st.data.size : Int) ≤ st.limits.maxSessions ∧
    st.totals.pendingMessages ≤ st.limits.maxPendingMessagesGlobal ∧
    st.totals.pendingBytes ≤ st.limits.maxPendingBytesGlobal ∧
    st.totals.subscriptionCount ≤ st.limits.maxSubscriptionsGlobal

theorem State.usage_nonneg (s : State) : 0 ≤ s.usage := by
  refine ⟨Int.natCast_nonneg _, ?_, Int.natCast_nonneg _, Int.natCast_nonneg _⟩
  exact List.sum_nonneg (by simp)

theorem Store.Inv.exact {st : Store} (h : st.Inv) : Accounts st where
  live := by
    intro r hr
    constructor
    · exact fun hd => ⟨_, h.live r hr hd⟩
    · rintro ⟨id, hid⟩
      exact (h.stored id r hid).2.2
  session := fun id r _ => ⟨(h.accounts r).messages, (h.accounts r).bytes⟩
  totals := h.usage
  nonneg := by
    constructor
    · rw [h.usage]
      exact Map.sum_nonneg fun id r _ => (st.states r).usage_nonneg
    · intro id r _
      obtain ⟨h1, h2, -⟩ := (st.states r).usage_nonneg
      rw [(h.accounts r).messages, (h.accounts r).bytes]
      exact ⟨h1, h2⟩
  sessionLimits := fun id r _ =>
    ⟨(h.accounts r).maxMessages, (h.accounts r).maxBytes, (h.accounts r).maxSubscriptions⟩
  globalLimits := ⟨h.sessions, h.within.messages, h.within.bytes, h.within.subscriptions⟩

/-- After any calls, also through handles of removed sessions, the accounts are exact. -/
theorem store_accounts (l : Limits) (st₀ : Store) (hnew : Store.newWithLimits l = .ok st₀)
    (ops : List StoreOp) (st : Store) (hrun : Sys.run StoreOp.step st₀ ops = some st) : Accounts st := by
  obtain ⟨hl, rfl⟩ := newWithLimits_ok hnew
  have hinv : st.Inv := Sys.run_invariant (Store.inv_new hl) (fun _ op _ h hs => op.step_inv h hs) hrun
  exact hinv.exact

/-- A session is removed and created anew while calls still go to the old one. -/
def staleHandleOps : List StoreOp :=
  [.getOrCreateOwned 0 [99] [], .on 0 (.setSubscription [97] 1),
    .on 0 (.admitMessage 0 [0x32, 5, 0, 1, 97, 0, 1] 5), .on 0 .beginDelivery, .on 0 (.next 1), .delete [99],
    .getOrCreateOwned 0 [99] [], .on 0 (.ack 1), .on 0 (.deleteSubscription [97]),
    .on 1 (.admitMessage 0 [0x32, 5, 0, 1, 97, 0, 1] 5)]

theorem store_accounts_stale_handle :
    ∃ st, Sys.run StoreOp.step { limits := defaultLimits } staleHandleOps = some st ∧
      st.totals.usage = (1, 7, 0, 0) ∧ Accounts st :=
  ⟨_, rfl, by decide, store_accounts defaultLimits _ rfl staleHandleOps _ rfl⟩

end OrbMQ
