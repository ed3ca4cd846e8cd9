import OrbMQ.Session.Account

/-!
# The identifiers in use

Over every run of the store, each session that was not removed is a redelivery window
(`State.Refines`), so its messages in flight are exactly the first entries of its queue, under
different identifiers, and there are never more of them than the window allows. That needs the
epoch not to wrap: `StoreOp.begins r` counts how often it grows. A session that was removed has no
messages any more; only `activeInflight` stays as it was.
-/

namespace OrbMQ

open Go Redelivery State

def StateOp.isBegin : StateOp → Bool
  | beginDelivery => true
  | _ => false

/-- A call starts a delivery of the session `r`. -/
def StoreOp.isBegin (r : Nat) : StoreOp → Bool
  | on r' op => r' = r && op.isBegin
  | _ => false

/-- How often a delivery of the session `r` starts. -/
def StoreOp.begins (r : Nat) (ops : List StoreOp) : Nat := ops.countP (isBegin r)

/-! ## One call -/

theorem StateOp.run_epoch {l : Limits} {s s' : State} {t t' : Snapshot} {op : StateOp}
    (hop : op.run l s t = some (s', t')) :
    s'.epoch = if op.isBegin then s.epoch + 1 else s.epoch := by
  cases run_moves hop <;> rfl

/-- A call on a live session keeps it a window, unless the epoch wraps. -/
theorem StateOp.refines {l : Limits} (hl : l.Valid) {s s' : State} {t t' : Snapshot} {w : Window UInt16}
    (h : Refines l s w) (hd : s.deleted = false) {op : StateOp} (hop : op.run l s t = some (s', t'))
    (hwrap : op.isBegin = true → s.epoch.toNat + 1 < 2 ^ 64) : ∃ w', Refines l s' w' := by
  have hmoves := run_moves hop
  cases op with
  | beginDelivery =>
    cases hmoves
    exact ⟨_, h.beginDelivery (hwrap rfl)⟩
  | admitMessage now data off =>
    cases hmoves with
    | unadmitted => exact ⟨w, h⟩
    | dropped => exact ⟨w, h.congr rfl rfl rfl rfl rfl rfl⟩
    | append => exact ⟨_, h.append now data off⟩
  | next epoch =>
    obtain ⟨⟨r, s₁, t₁⟩, hn, he⟩ := Option.map_eq_some_iff.mp hop
    cases he
    rcases h.next_cases hl.inflight.1 epoch t with
      ⟨hn', -⟩ | ⟨-, hpos, p, id, rest, hr, -, hn'⟩ | ⟨hready, hpos, p, id, rest, hr, hf, -, hfree, hid, hn'⟩
    · rw [hn'] at hn
      cases hn
      exact ⟨w, h⟩
    · rw [hn'] at hn
      cases hn
      exact ⟨_, h.attempt hpos hr⟩
    · rw [hn'] at hn
      cases hn
      exact ⟨_, h.assign hpos hready.window hr hf hfree hid⟩
  | ack id =>
    have hs : (s.ack id t).1 = s' := congrArg Prod.fst (Option.some.inj hop)
    exact ⟨_, hs ▸ h.ack hd id t⟩
  | _ =>
    cases hmoves
    exact ⟨w, h.congr rfl rfl rfl rfl rfl rfl⟩

/-- Calls that only remove sessions. -/
structure Removes (st st' : Store) : Prop where
  limits : st'.limits = st.limits
  allocated : st'.allocated = st.allocated
  epoch : ∀ r, (st'.states r).epoch = (st.states r).epoch
  live : ∀ r, (st'.states r).deleted = false → st'.states r = st.states r

theorem Removes.refl (st : Store) : Removes st st := ⟨rfl, rfl, fun _ => rfl, fun _ _ => rfl⟩

theorem Removes.trans {st₁ st₂ st₃ : Store} (h : Removes st₁ st₂) (h' : Removes st₂ st₃) :
    Removes st₁ st₃ where
  limits := h'.limits.trans h.limits
  allocated := h'.allocated.trans h.allocated
  epoch := fun r => (h'.epoch r).trans (h.epoch r)
  live := fun r hd => by
    have h2 := h'.live r hd
    rw [h2] at hd ⊢
    exact h.live r hd

theorem removes_deleteLocked (st : Store) (id : Bytes) : Removes st (st.deleteLocked id) := by
  unfold Store.deleteLocked
  cases hid : st.data[id]? with
  | none => exact .refl st
  | some r =>
    refine ⟨rfl, rfl, fun r' => ?_, fun r' => ?_⟩
    · simp only [Store.set, Function.update_apply]
      split
      · rename_i e; rw [e]; rfl
      · rfl
    · simp only [Store.set, Function.update_apply]
      split
      · rintro ⟨⟩
      · exact fun _ => rfl

theorem removes_expireLocked (st : Store) (state : Option Nat) (now : Time) :
    Removes st (st.expireLocked state now).2 := by
  unfold Store.expireLocked
  cases state with
  | none => exact .refl st
  | some r =>
    dsimp only
    split
    · exact .refl st
    · have h := removes_deleteLocked st (st.states r).id
      exact ⟨h.limits, h.allocated, h.epoch, h.live⟩

theorem removes_expire (st : Store) (now : Time) (order : List Bytes) :
    Removes st (st.expire now order).2 := by
  unfold Store.expire
  split
  · exact .refl st
  · induction order generalizing st with
    | nil => exact .refl st
    | cons id order ih =>
      have h := removes_expireLocked st st.data[id]? now
      exact h.trans (ih _ (h.limits ▸ ‹_›))

/-! ## Every run -/

/-- What holds after some calls: epochs count the deliveries, and live sessions are windows. -/
structure Tracked (l : Limits) (ops : List StoreOp) (st : Store) : Prop where
  limits : st.limits = l
  valid : l.Valid
  unborn : ∀ r, st.allocated ≤ r → StoreOp.begins r ops = 0
  epoch : ∀ r < st.allocated, StoreOp.begins r ops < 2 ^ 64 →
    (st.states r).epoch.toNat = StoreOp.begins r ops
  window : ∀ r < st.allocated, StoreOp.begins r ops < 2 ^ 64 → (st.states r).deleted = false →
    ∃ w, Refines l (st.states r) w

theorem StoreOp.begins_snoc (r : Nat) (ops : List StoreOp) (op : StoreOp) :
    begins r (ops ++ [op]) = begins r ops + if op.isBegin r then 1 else 0 := by
  simp [begins, List.countP_append, List.countP_cons]

/-- A call that starts no delivery and only removes sessions. -/
theorem Tracked.removes {l : Limits} {ops : List StoreOp} {st st' : Store} (h : Tracked l ops st) {op : StoreOp}
    (hop : ∀ r, op.isBegin r = false) (hr : Removes st st') : Tracked l (ops ++ [op]) st' := by
  have hb : ∀ r, StoreOp.begins r (ops ++ [op]) = StoreOp.begins r ops := fun r => by
    simp [StoreOp.begins_snoc, hop]
  refine ⟨hr.limits.trans h.limits, h.valid, ?_, ?_, ?_⟩
  · intro r ha
    rw [hb]
    exact h.unborn r (hr.allocated ▸ ha)
  · intro r ha hlt
    rw [hb] at hlt ⊢
    rw [hr.epoch]
    exact h.epoch r (hr.allocated ▸ ha) hlt
  · intro r ha hlt hd
    rw [hb] at hlt
    have e := hr.live r hd
    rw [e] at hd ⊢
    exact h.window r (hr.allocated ▸ ha) hlt hd

theorem Tracked.getOrCreateOwned {l : Limits} {ops : List StoreOp} {st : Store} (h : Tracked l ops st)
    (now : Time) (id owner : Bytes) :
    Tracked l (ops ++ [.getOrCreateOwned now id owner]) (st.getOrCreateOwned now id owner).2 := by
  have hop : ∀ r, (StoreOp.getOrCreateOwned now id owner).isBegin r = false := fun _ => rfl
  have hb : ∀ r, StoreOp.begins r (ops ++ [.getOrCreateOwned now id owner]) = StoreOp.begins r ops :=
    fun r => by simp [StoreOp.begins_snoc, hop]
  unfold Store.getOrCreateOwned
  split
  · split <;> exact h.removes hop (.refl st)
  · split
    · exact h.removes hop ⟨rfl, rfl, fun _ => rfl, fun _ _ => rfl⟩
    · refine ⟨h.limits, h.valid, ?_, ?_, ?_⟩
      · intro r ha
        rw [hb]
        exact h.unborn r (Nat.le_of_succ_le ha)
      · intro r ha hlt
        dsimp only at ha ⊢
        rw [hb] at hlt ⊢
        by_cases e : r = st.allocated
        · subst e
          rw [Function.update_self, h.unborn _ (Nat.le_refl _)]
          rfl
        · rw [Function.update_of_ne e]
          exact h.epoch r (by omega) hlt
      · intro r ha hlt hd
        dsimp only at ha hd ⊢
        rw [hb] at hlt
        by_cases e : r = st.allocated
        · subst e
          rw [Function.update_self]
          exact ⟨_, .new h.valid.pending.2.2.2.2.le rfl rfl rfl⟩
        · rw [Function.update_of_ne e] at hd ⊢
          exact h.window r (by omega) hlt hd

theorem Tracked.on {l : Limits} {ops : List StoreOp} {st : Store} (h : Tracked l ops st) {r : Nat}
    (hr : r < st.allocated) {op : StateOp} {s : State} {t : Snapshot}
    (hop : op.run l (st.states r) st.totals = some (s, t))
    (hdel : s.deleted = (st.states r).deleted) : Tracked l (ops ++ [.on r op]) (st.set r s t) := by
  have hb : ∀ r', StoreOp.begins r' (ops ++ [.on r op]) =
      StoreOp.begins r' ops + if r = r' ∧ op.isBegin = true then 1 else 0 := fun r' => by
    simp [StoreOp.begins_snoc, StoreOp.isBegin]
  have hstates : ∀ r', (st.set r s t).states r' = if r' = r then s else st.states r' := fun r' => by
    simp only [Store.set, Function.update_apply]
  refine ⟨h.limits, h.valid, ?_, ?_, ?_⟩
  · intro r' ha
    have hne : ¬(r = r' ∧ op.isBegin = true) := fun e => by
      have : st.allocated ≤ r' := ha
      omega
    rw [hb, if_neg hne]
    exact h.unborn r' ha
  · intro r' ha hlt
    rw [hb] at hlt ⊢
    rw [hstates]
    split
    · rename_i e
      subst e
      simp only [true_and] at hlt ⊢
      rw [StateOp.run_epoch hop]
      have hep := h.epoch r' ha (by omega)
      split
      · rename_i hbeg
        simp only [hbeg, if_true] at hlt
        rw [UInt64.toNat_add, UInt64.toNat_one, hep]
        omega
      · exact hep
    · rename_i e
      simp only [Ne.symm e, false_and, if_false, add_zero] at hlt ⊢
      exact h.epoch r' ha hlt
  · intro r' ha hlt hd
    rw [hb] at hlt
    rw [hstates] at hd ⊢
    split
    · rename_i e
      subst e
      rw [if_pos rfl] at hd
      obtain ⟨w, hw⟩ := h.window r' ha (by omega) (hdel.symm.trans hd)
      refine StateOp.refines h.valid hw (hdel.symm.trans hd) hop fun hbeg => ?_
      simp only [true_and, hbeg, if_true] at hlt
      rw [h.epoch r' ha (by omega)]
      omega
    · rename_i e
      rw [if_neg e] at hd
      exact h.window r' ha (by omega) hd

theorem Tracked.step {l : Limits} {ops : List StoreOp} {st st' : Store} (h : Tracked l ops st)
    (hinv : st.Inv) (op : StoreOp) (hop : op.step st = some st') : Tracked l (ops ++ [op]) st' := by
  cases StoreOp.step_moves hop with
  | getOrCreateOwned now id owner => exact h.getOrCreateOwned now id owner
  | delete id => exact h.removes (fun _ => rfl) (removes_deleteLocked st id)
  | @expire now order => exact h.removes (fun _ => rfl) (removes_expire st now order)
  | expireSession id now => exact h.removes (fun _ => rfl) (removes_expireLocked st _ now)
  | @on r op s t hr hrun =>
    exact h.on hr (h.limits ▸ hrun) (op.settles (hinv.accounts r) hinv.within hrun).deleted

theorem tracked_run {l : Limits} (hl : l.Valid) {ops : List StoreOp} {st : Store}
    (hrun : Sys.run StoreOp.step { limits := l } ops = some st) : Tracked l ops st := by
  have h : st.Inv ∧ Tracked l ops st := by
    refine Sys.run_history (I := fun ops st => st.Inv ∧ Tracked l ops st) ?_ ?_ hrun
    · exact ⟨Store.inv_new hl, rfl, hl, fun _ _ => rfl, nofun, nofun⟩
    · rintro ops st op st' - ⟨hinv, htr⟩ hstep
      exact ⟨op.step_inv hinv hstep, htr.step hinv op hstep⟩
  exact h.2

/-! ## The messages in flight -/

/-- The messages in flight of a session. -/
structure InflightLaws (l : Limits) (s : State) : Prop where
  entries : s.entries.Nodup
  /-- In flight are exactly the entries with an identifier, under it. -/
  inflight : ∀ (id : UInt16) p, s.inflight[id]? = some p ↔
    p ∈ s.entries ∧ (s.heap p).packetID = id ∧ id ≠ 0
  distinct : ∀ p ∈ s.entries, ∀ q ∈ s.entries, (s.heap p).packetID ≠ 0 →
    (s.heap p).packetID = (s.heap q).packetID → p = q
  /-- They come first in the queue. -/
  front : s.entries.filter (fun p => (s.heap p).packetID ≠ 0) <+: s.entries
  size : (s.inflight.size : Int) ≤ l.maxInflightMessagesPerSession ∧ l.maxInflightMessagesPerSession ≤ 65535

/-- The messages in flight of a session that was not removed, and those of them that were sent in its epoch. -/
structure WindowLaws (l : Limits) (s : State) : Prop extends InflightLaws l s where
  active : s.activeInflight =
    s.entries.countP fun p => (s.heap p).packetID ≠ 0 ∧ (s.heap p).lastEpoch = s.epoch
  bounds : 0 ≤ s.activeInflight ∧ s.activeInflight ≤ s.inflight.size

theorem State.Refines.windowLaws {l : Limits} (hl : l.Valid) {s : State} {w : Window UInt16}
    (h : Refines l s w) : WindowLaws l s := by
  have hsize := h.size
  have hact := h.active
  have hwin := h.window
  simp only [Window.assigned, List.length_append] at hsize hwin
  refine ⟨⟨h.sorted.imp Nat.ne_of_lt, h.inflight, ?_, ?_, by omega, hl.inflight.1⟩, ?_, by omega, by omega⟩
  · intro p hp q hq hne he
    have h1 := (h.inflight _ p).mpr ⟨hp, rfl, hne⟩
    have h2 := (h.inflight _ q).mpr ⟨hq, he.symm, hne⟩
    rw [h1] at h2
    exact Option.some.inj h2
  · have hf : w.fresh.filter (fun p => (s.heap p).packetID ≠ 0) = [] :=
      List.filter_eq_nil_iff.mpr fun p hp => by simp [(h.fresh p hp).1]
    have ha : (w.assigned.map Prod.fst).filter (fun p => (s.heap p).packetID ≠ 0) =
        w.assigned.map Prod.fst := by
      rw [List.filter_eq_self]
      intro p hp
      obtain ⟨x, hx, rfl⟩ := List.mem_map.mp hp
      have := h.mem_assigned hx
      simpa [this.1] using this.2
    rw [h.pending, w.pending_eq, List.filter_append, hf, ha, List.append_nil]
    exact List.prefix_append _ _
  · have hsent : (w.sent.map Prod.fst).countP
        (fun p => (s.heap p).packetID ≠ 0 ∧ (s.heap p).lastEpoch = s.epoch) = w.sent.length := by
      rw [← List.length_map (f := Prod.fst), List.countP_eq_length]
      intro p hp
      obtain ⟨x, hx, rfl⟩ := List.mem_map.mp hp
      obtain ⟨hid, hne, hep, -⟩ := h.sent x hx
      simpa [hid, hep] using hne
    have hwait : w.waiting.countP
        (fun p => (s.heap p).packetID ≠ 0 ∧ (s.heap p).lastEpoch = s.epoch) = 0 := by
      rw [List.countP_eq_zero]
      intro p hp
      rw [Window.waiting, List.mem_append] at hp
      rcases hp with hp | hp
      · obtain ⟨x, hx, rfl⟩ := List.mem_map.mp hp
        simp [UInt64.ne_of_lt (h.replay x hx).2.2]
      · simp [(h.fresh p hp).1]
    rw [hact, h.pending, Window.pending, List.countP_append, hsent, hwait, add_zero]

/-- Nothing is in flight in an empty queue. -/
theorem InflightLaws.of_empty {l : Limits} (hl : l.Valid) {s : State} (he : s.entries = []) (hi : s.inflight = ∅) :
    InflightLaws l s := by
  have hpos := hl.pending.2.2.2.2
  refine ⟨?_, ?_, ?_, ?_, ?_, hl.inflight.1⟩ <;> simp [he, hi]
  omega

/-- What holds of a session after calls that have begun so many deliveries of it. -/
structure FlightLaws (l : Limits) (begins : Nat) (s : State) : Prop where
  live : s.deleted = false → begins < 2 ^ 64 → WindowLaws l s
  removed : s.deleted = true → s.entries = [] ∧ s.inflight = ∅ ∧ InflightLaws l s

/-- After any calls, every session has its messages in flight in order: all of them if it was not removed and its epoch
did not wrap, and none if it was removed. -/
theorem inflight_window (l : Limits) (st₀ : Store) (hnew : Store.newWithLimits l = .ok st₀)
    (ops : List StoreOp) (st : Store) (hrun : Sys.run StoreOp.step st₀ ops = some st) (r : Nat)
    (hr : r < st.allocated) : FlightLaws l (StoreOp.begins r ops) (st.states r) := by
  obtain ⟨hl, rfl⟩ := newWithLimits_ok hnew
  refine ⟨fun hlive hwrap => ?_, fun hdel => ?_⟩
  · obtain ⟨w, hw⟩ := (tracked_run hl hrun).window r hr hwrap hlive
    exact hw.windowLaws hl
  · have hinv := Sys.run_invariant (Store.inv_new hl) (fun _ op _ hi hop => op.step_inv hi hop) hrun
    obtain ⟨he, hi, -⟩ := (hinv.accounts r).removed hdel
    exact ⟨he, hi, .of_empty hl he hi⟩

/-- Two messages, one of them in flight, and a reconnect. -/
def reconnectOps : List StoreOp :=
  [.getOrCreateOwned 0 [99] [], .on 0 (.admitMessage 0 [0x32, 5, 0, 1, 97, 0, 1] 5),
    .on 0 (.admitMessage 0 [0x32, 5, 0, 1, 98, 0, 1] 5), .on 0 .beginDelivery, .on 0 (.next 1),
    .on 0 .beginDelivery]

theorem inflight_window_reconnect :
    ∃ st, Sys.run StoreOp.step { limits := defaultLimits } reconnectOps = some st ∧
      (st.states 0).inflight.size = 1 ∧ WindowLaws defaultLimits (st.states 0) :=
  ⟨_, rfl, by decide, (inflight_window defaultLimits _ rfl reconnectOps _ rfl 0 (by decide)).live rfl (by decide)⟩

/-- A removed session keeps its count of the messages sent, although none is left. -/
theorem inflight_count_of_removed :
    ∃ st, Sys.run StoreOp.step { limits := defaultLimits }
        [.getOrCreateOwned 0 [99] [], .on 0 (.admitMessage 0 [0x32, 5, 0, 1, 97, 0, 1] 5),
          .on 0 .beginDelivery, .on 0 (.next 1), .delete [99]] = some st ∧
      (st.states 0).activeInflight = 1 ∧ (st.states 0).entries = [] ∧ (st.states 0).inflight.size = 0 :=
  ⟨_, rfl, by decide, rfl, by decide⟩

end OrbMQ
