import OrbMQ.Session.Inflight

/-!
# The search for a packet identifier

`Next` gives a message that was never sent the first free identifier after the last one it gave. The loop has no
bound of its own: it ends because the messages in flight leave an identifier free (`packetID_search`).

They do as long as the epoch has not come round. A session that began 2 ^ 64 deliveries has the epoch of a message
again that is still in flight; `Next` then takes it for sent in this delivery and goes on to a fresh message, past a
full window. `packetID_search_wraps` is a run that ends so, with all identifiers in use.
-/

namespace OrbMQ

open Go Redelivery State

/-! ## The loop -/

/-- The loop stops at the first free identifier, whatever bound it has. -/
theorem State.freePacketID_iff {inflight : Go.Map UInt16 Nat} {fuel : Nat} {id i : UInt16} :
    freePacketID inflight fuel id = some i ↔ ∃ k < fuel, i = nextID^[k + 1] id ∧ inflight[i]? = none ∧
      ∀ j < k, inflight[nextID^[j + 1] id]? ≠ none := by
  induction fuel generalizing id with
  | zero => exact ⟨nofun, fun ⟨k, hk, _⟩ => absurd hk (Nat.not_lt_zero k)⟩
  | succ fuel ih =>
    rw [freePacketID]
    by_cases hn : inflight[nextID id]? = none
    · rw [if_pos hn]
      constructor
      · intro h
        cases h
        exact ⟨0, Nat.succ_pos _, rfl, hn, fun j hj => absurd hj (Nat.not_lt_zero j)⟩
      · rintro ⟨k, -, rfl, -, hj⟩
        cases k with
        | zero => rfl
        | succ k => exact absurd hn (hj 0 (Nat.succ_pos k))
    · rw [if_neg hn, ih]
      constructor
      · rintro ⟨k, hk, rfl, hfree, hj⟩
        refine ⟨k + 1, Nat.succ_lt_succ hk, rfl, hfree, fun j hlt => ?_⟩
        cases j with
        | zero => exact hn
        | succ j => exact hj j (Nat.lt_of_succ_lt_succ hlt)
      · rintro ⟨k, hk, rfl, hfree, hj⟩
        cases k with
        | zero => exact absurd hfree hn
        | succ k => exact ⟨k, Nat.lt_of_succ_lt_succ hk, rfl, hfree, fun j hlt => hj (j + 1) (Nat.succ_lt_succ hlt)⟩

/-- What is said of the search when `Next` has come to a message that was never sent. -/
structure SearchEnds (s : State) : Prop where
  free : ∃ id : UInt16, id ≠ 0 ∧ s.inflight[id]? = none
  /-- The loop makes `k + 1` rounds; the identifiers of the rounds before the last are in use. -/
  first : ∃ k id, freePacketID s.inflight 65536 s.nextPacketID = some id ∧ id = nextID^[k + 1] s.nextPacketID ∧
    id.toNat = (s.nextPacketID.toNat + k) % 65535 + 1 ∧ id ≠ 0 ∧ s.inflight[id]? = none ∧
    ∀ j < k, s.inflight[nextID^[j + 1] s.nextPacketID]? ≠ none

theorem State.Refines.search {l : Limits} (hl : l.Valid) {s : State} {w : Window UInt16} (h : Refines l s w)
    {epoch : UInt64} {p : Nat} (hready : Ready l epoch s) (hsel : s.select epoch = some p)
    (hid : (s.heap p).packetID = 0) : SearchEnds s := by
  have hreturns : s.next l epoch {} ≠ none := by
    obtain ⟨e, -⟩ | ⟨-, -, _, _, _, -, -, e⟩ | ⟨-, -, _, _, _, -, -, -, -, -, e⟩ := h.next_cases hl.inflight.1 epoch {}
    all_goals
      rw [e]
      nofun
  rw [next_of_ready hready, hsel] at hreturns
  dsimp only at hreturns
  rw [if_neg (not_not.mpr hid)] at hreturns
  have hsome : freePacketID s.inflight 65536 s.nextPacketID ≠ none := fun e => hreturns (by rw [e]; rfl)
  obtain ⟨id, hfound⟩ := Option.ne_none_iff_exists'.mp hsome
  obtain ⟨hfree, hne⟩ := freePacketID_spec hfound
  obtain ⟨k, -, hk, -, hused⟩ := freePacketID_iff.mp hfound
  refine ⟨⟨id, hne, hfree⟩, k, id, hfound, hk, ?_, hne, hfree, hused⟩
  rw [hk, toNat_iterate_nextID]

/-- **The search ends** in every session whose epoch did not wrap, at the first free identifier. -/
theorem packetID_search (l : Limits) (st₀ : Store) (hnew : Store.newWithLimits l = .ok st₀) (ops : List StoreOp)
    (st : Store) (hrun : Sys.run StoreOp.step st₀ ops = some st) (r : Nat) (hr : r < st.allocated)
    (hwrap : StoreOp.begins r ops < 2 ^ 64) (epoch : UInt64) (p : Nat) (hready : Ready l epoch (st.states r))
    (hsel : (st.states r).select epoch = some p) (hid : ((st.states r).heap p).packetID = 0) :
    SearchEnds (st.states r) := by
  obtain ⟨hl, rfl⟩ := newWithLimits_ok hnew
  obtain ⟨w, hw⟩ := (tracked_run hl hrun).window r hr hwrap hready.live
  exact hw.search hl hready hsel hid

/-- A message waits for its first attempt. -/
def waitingOps : List StoreOp :=
  [.getOrCreateOwned 0 [99] [], .on 0 (.admitMessage 0 [0x32, 5, 0, 1, 97, 0, 1] 5), .on 0 .beginDelivery]

theorem packetID_search_first :
    ∃ st, Sys.run StoreOp.step { limits := defaultLimits } waitingOps = some st ∧ SearchEnds (st.states 0) :=
  ⟨_, rfl, packetID_search defaultLimits _ rfl waitingOps _ rfl 0 (by decide) (by decide) 1 0
    ⟨rfl, rfl, rfl, by decide⟩ rfl rfl⟩

/-! ## An epoch that wraps -/

/-- A window of all identifiers. -/
def wideLimits : Limits :=
  { defaultLimits with maxPendingMessagesPerSession := 65536, maxInflightMessagesPerSession := 65535 }

/-- The store has one session, of which `P` holds. -/
structure Single (P : State → Snapshot → Prop) (st : Store) : Prop where
  limits : st.limits = wideLimits
  allocated : st.allocated = 1
  session : P (st.states 0) st.totals

theorem Single.on {P Q : State → Snapshot → Prop} {st : Store} (h : Single P st) (op : StateOp)
    (hop : ∀ s t, P s t → ∃ s' t', op.run wideLimits s t = some (s', t') ∧ Q s' t') :
    ∃ st', StoreOp.step st (.on 0 op) = some st' ∧ Single Q st' := by
  obtain ⟨s', t', hrun, hq⟩ := hop _ _ h.session
  refine ⟨st.set 0 s' t', ?_, h.limits, h.allocated, ?_⟩
  · rw [StoreOp.step, if_pos (by rw [h.allocated]; exact Nat.zero_lt_one), h.limits, hrun]
    rfl
  · simpa [Store.set] using hq

/-- `k` messages were admitted. -/
structure Admitted (k : Nat) (s : State) (t : Snapshot) : Prop where
  live : s.deleted = false ∧ s.paused = false
  entries : s.entries = List.range k
  allocated : s.allocated = k
  fresh : ∀ p, (s.heap p).packetID = 0 ∧ (s.heap p).lastEpoch = 0
  inflight : s.inflight = ∅
  start : s.nextPacketID = 0 ∧ s.epoch = 0
  pending : s.stats.pendingMessages = k ∧ s.stats.pendingBytes = 7 * k ∧ t.pendingMessages = k ∧ t.pendingBytes = 7 * k

/-- The first `k` of them were sent, in the first delivery. -/
structure SentFirst (k : Nat) (s : State) : Prop where
  live : s.deleted = false ∧ s.paused = false
  entries : s.entries = List.range 65536
  sent : ∀ p < k, (s.heap p).lastEpoch = 1
  fresh : ∀ p, k ≤ p → (s.heap p).packetID = 0 ∧ (s.heap p).lastEpoch = 0
  last : s.nextPacketID = UInt16.ofNat k
  inflight : ∀ id : UInt16, s.inflight[id]? ≠ none ↔ 1 ≤ id.toNat ∧ id.toNat ≤ k

def wideMessage : Bytes := [0x32, 5, 0, 1, 97, 0, 1]

theorem Admitted.admitMessage {k : Nat} (hk : k < 65536) {s : State} {t : Snapshot} (h : Admitted k s t) :
    ∃ s' t', (StateOp.admitMessage 0 wideMessage 5).run wideLimits s t = some (s', t') ∧ Admitted (k + 1) s' t' := by
  obtain ⟨h1, h2, h3, h4⟩ := h.pending
  have hfits : dropReason wideLimits wideMessage.length s t = none := by
    unfold dropReason
    rw [if_neg, if_neg]
    · simp only [wideLimits, defaultLimits, wideMessage, h3, h4, List.length_cons, List.length_nil]
      omega
    · simp only [wideLimits, defaultLimits, wideMessage, h1, h2, List.length_cons, List.length_nil]
      omega
  refine ⟨s.append 0 wideMessage 5, addPending wideMessage.length t, ?_, ?_⟩
  · have hq : queuedPublish wideMessage 5 = true := by decide
    simp only [StateOp.run, State.admitMessage, hq, h.live.1, hfits, Bool.not_true, Bool.false_eq_true, if_false]
  · refine ⟨h.live, ?_, ?_, fun p => ?_, h.inflight, h.start, ?_⟩
    · simp only [State.append, State.notifyLocked, h.entries, h.allocated, List.range_succ]
    · simp only [State.append, State.notifyLocked, h.allocated]
    · simp only [State.append, State.notifyLocked, Function.update_apply]
      split
      · exact ⟨rfl, rfl⟩
      · exact h.fresh p
    · simp only [State.append, State.notifyLocked, addPending, wideMessage, h1, h2, h3, h4, List.length_cons, List.length_nil]
      refine ⟨?_, ?_, ?_, ?_⟩ <;> push_cast <;> ring

theorem Admitted.beginDelivery {s : State} {t : Snapshot} (h : Admitted 65536 s t) :
    SentFirst 0 s.beginDelivery.2 ∧ s.beginDelivery.2.epoch = 1 ∧ s.beginDelivery.2.activeInflight = 0 := by
  refine ⟨⟨h.live, h.entries, fun p hp => absurd hp (Nat.not_lt_zero p), fun p _ => h.fresh p, h.start.1, fun id => ?_⟩,
    ?_, rfl⟩
  · show s.inflight[id]? ≠ none ↔ _
    rw [h.inflight]
    simp
    omega
  · show s.epoch + 1 = 1
    rw [h.start.2]
    rfl

/-- What `Next` selects. -/
theorem SentFirst.select {k : Nat} (hk : k ≤ 65535) {s : State} (h : SentFirst k s) : s.select 1 = some k := by
  unfold State.select
  rw [h.entries, List.find?_range_eq_some]
  refine ⟨by simp [(h.fresh k (Nat.le_refl k)).2], List.mem_range.mpr (by omega), fun j hj => ?_⟩
  simp [h.sent j hj]

theorem SentFirst.next {k : Nat} (hk : k < 65535) {s : State} (h : SentFirst k s) (hepoch : s.epoch = 1)
    (hactive : s.activeInflight = k) (t : Snapshot) : ∃ s' t', (StateOp.next 1).run wideLimits s t = some (s', t') ∧
      SentFirst (k + 1) s' ∧ s'.epoch = 1 ∧ s'.activeInflight = (k + 1 : Nat) := by
  have hready : Ready wideLimits 1 s := ⟨h.live.1, h.live.2, hepoch.symm, by
    rw [hactive]
    show (k : Int) < 65535
    omega⟩
  have hnextID : nextID (UInt16.ofNat k) = UInt16.ofNat (k + 1) := by
    apply UInt16.toNat_inj.mp
    rw [toNat_nextID]
    simp only [UInt16.toNat_ofNat']
    omega
  have hnat : (UInt16.ofNat (k + 1)).toNat = k + 1 := by
    rw [UInt16.toNat_ofNat']
    omega
  have hfree : s.inflight[UInt16.ofNat (k + 1)]? = none := by
    by_contra hne
    have := (h.inflight _).mp hne
    omega
  have hfound : freePacketID s.inflight 65536 s.nextPacketID = some (UInt16.ofNat (k + 1)) := by
    rw [h.last, freePacketID, hnextID, if_pos hfree]
  refine ⟨(s.assign k (UInt16.ofNat (k + 1))).attempt 1 k, { t with inflightMessages := t.inflightMessages + 1 },
    ?_, ⟨h.live, h.entries, fun p hp => ?_, fun p hp => ?_, rfl, fun id => ?_⟩, hepoch, ?_⟩
  · rw [StateOp.run, next_of_ready hready, h.select (Nat.le_of_lt hk)]
    dsimp only
    rw [if_neg (not_not.mpr (h.fresh k (Nat.le_refl k)).1), hfound]
    rfl
  · simp only [heap_attempt, heap_assign]
    by_cases e : p = k
    · simp [e]
    · simp [e, h.sent p (by omega)]
  · have hne : p ≠ k := by omega
    simp only [heap_attempt, heap_assign]
    simp [hne, h.fresh p (by omega)]
  · show (s.inflight.insert (UInt16.ofNat (k + 1)) k)[id]? ≠ none ↔ _
    rw [Map.get_insert]
    have hold := h.inflight id
    by_cases e : UInt16.ofNat (k + 1) = id
    · rw [if_pos e, ← e, hnat]
      simp
    · rw [if_neg e, hold]
      have : id.toNat ≠ k + 1 := fun hn => e (UInt16.toNat_inj.mp (by rw [hnat, hn]))
      omega
  · show s.activeInflight + 1 = _
    rw [hactive]
    push_cast
    rfl

/-- When all identifiers are in use, the loop does not end. -/
theorem freePacketID_full {inflight : Go.Map UInt16 Nat} (h : ∀ id : UInt16, id ≠ 0 → inflight[id]? ≠ none)
    (fuel : Nat) (id : UInt16) : freePacketID inflight fuel id = none := by
  induction fuel generalizing id with
  | zero => rfl
  | succ fuel ih => rw [freePacketID, if_neg (h _ (nextID_ne_zero id)), ih]

/-- All but one message were sent, and then `j` deliveries began. -/
structure Reconnected (j : Nat) (s : State) : Prop extends SentFirst 65535 s where
  epoch : s.epoch = 1 + UInt64.ofNat j
  idle : j ≠ 0 → s.activeInflight = 0

theorem Reconnected.beginDelivery {j : Nat} {s : State} (h : Reconnected j s) :
    Reconnected (j + 1) s.beginDelivery.2 := by
  refine ⟨⟨h.live, h.entries, h.sent, h.fresh, h.last, h.inflight⟩, ?_, fun _ => rfl⟩
  show s.epoch + 1 = _
  rw [h.epoch, UInt64.ofNat_add, UInt64.add_assoc]
  rfl

/-- The messages are admitted, and all but the last one are sent; then the client comes and goes. -/
def wideOps : List StoreOp :=
  [.getOrCreateOwned 0 [99] []] ++ List.replicate 65536 (.on 0 (.admitMessage 0 wideMessage 5)) ++
  [.on 0 .beginDelivery] ++ List.replicate 65535 (.on 0 (.next 1)) ++ List.replicate (2 ^ 64) (.on 0 .beginDelivery)

theorem wideOps_run : ∃ st, Sys.run StoreOp.step { limits := wideLimits } wideOps = some st ∧
    Single (fun s _ => Reconnected (2 ^ 64) s) st := by
  obtain ⟨st₁, h₁, hs₁⟩ : ∃ st, StoreOp.step { limits := wideLimits } (.getOrCreateOwned 0 [99] []) = some st ∧
      Single (Admitted 0) st :=
    ⟨_, rfl, rfl, rfl, ⟨rfl, rfl⟩, rfl, rfl, fun p => ⟨rfl, rfl⟩, rfl, ⟨rfl, rfl⟩, by decide⟩
  obtain ⟨st₂, h₂, hs₂⟩ := Sys.run_replicate (I := fun k => Single (Admitted k)) hs₁ 65536 fun k hk st h =>
    h.on _ fun s t hst => hst.admitMessage hk
  obtain ⟨st₃, h₃, hs₃⟩ := hs₂.on .beginDelivery
    (Q := fun s _ => SentFirst 0 s ∧ s.epoch = 1 ∧ s.activeInflight = (0 : Nat)) fun s t hst => ⟨_, t, rfl, hst.beginDelivery⟩
  obtain ⟨st₄, h₄, hs₄⟩ := Sys.run_replicate
    (I := fun k => Single fun s _ => SentFirst k s ∧ s.epoch = 1 ∧ s.activeInflight = (k : Nat)) hs₃ 65535
    fun k hk st h => h.on _ fun s t ⟨hsent, hepoch, hactive⟩ => hsent.next hk hepoch hactive t
  have hstart : Single (fun s _ => Reconnected 0 s) st₄ := by
    obtain ⟨hl, ha, hsent, hepoch, -⟩ := hs₄
    exact ⟨hl, ha, hsent, hepoch, fun h => absurd rfl h⟩
  obtain ⟨st₅, h₅, hs₅⟩ := Sys.run_replicate (I := fun j => Single fun s _ => Reconnected j s) hstart (2 ^ 64)
    fun j _ st h => h.on .beginDelivery fun s t hst => ⟨_, t, rfl, hst.beginDelivery⟩
  exact ⟨st₅, Sys.run_trans (Sys.run_trans (Sys.run_trans (Sys.run_trans (Sys.run_singleton h₁) h₂)
    (Sys.run_singleton h₃)) h₄) h₅, hs₅⟩

/-- **The search does not end**: the epoch is 1 again, every identifier awaits its PUBACK, and `Next` looks for
another one. -/
theorem packetID_search_wraps : ∃ st, Store.newWithLimits wideLimits = .ok { limits := wideLimits } ∧
    Sys.run StoreOp.step { limits := wideLimits } wideOps = some st ∧
    Ready wideLimits 1 (st.states 0) ∧ (st.states 0).select 1 = some 65535 ∧
    ((st.states 0).heap 65535).packetID = 0 ∧ (∀ id : UInt16, id ≠ 0 → (st.states 0).inflight[id]? ≠ none) ∧
    ∀ fuel, freePacketID (st.states 0).inflight fuel (st.states 0).nextPacketID = none := by
  obtain ⟨st, hrun, -, -, hs⟩ := wideOps_run
  have hepoch : (st.states 0).epoch = 1 := by
    rw [hs.epoch]
    decide
  have hfull : ∀ id : UInt16, id ≠ 0 → (st.states 0).inflight[id]? ≠ none := fun id hid => by
    have hpos : id.toNat ≠ 0 := fun h => hid (UInt16.toNat_inj.mp h)
    have hlt := id.toNat_lt
    exact (hs.inflight id).mpr (by omega)
  refine ⟨st, rfl, hrun, ⟨hs.live.1, hs.live.2, hepoch.symm, ?_⟩, hs.select (Nat.le_refl _),
    (hs.fresh 65535 (Nat.le_refl _)).1, hfull, fun fuel => freePacketID_full hfull fuel _⟩
  rw [hs.idle (by decide)]
  decide

end OrbMQ
