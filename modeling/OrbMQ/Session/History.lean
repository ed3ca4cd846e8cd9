import OrbMQ.Session.Window

/-!
# The history of a session's queue

A run of the calls that admit, deliver and acknowledge messages, together with what each of them
did as a label of `Redelivery`. Other sessions of the store can change the totals in between
(`others`), so a run sees every outcome of an admission.

`QueueLaws` are the laws of such a run: the queue is the admitted messages without the acknowledged
ones; in each epoch `Next` returns what is pending once and in order, replays first and marked as
duplicates; a stale epoch gets nothing.
-/

namespace OrbMQ

open Go Redelivery

/-- A call on a session, or a change of the store's totals by other sessions. -/
inductive QueueOp where
  | admitMessage (now : Time) (data : Bytes) (packetIDOffset : Int)
  | beginDelivery
  | pauseDelivery
  | resumeDelivery
  | next (epoch : UInt64)
  | ack (packetID : UInt16)
  | others (totals : Snapshot)

/-- A session, the totals of its store, and what happened; a message is its bytes and the place of
its packet identifier. -/
structure QueueRun where
  state : State
  totals : Snapshot
  labels : List (Label (Bytes × Int) UInt16) := []

/-- The DUP flag of a delivery. -/
def Delivery.dup (d : Delivery) : Bool := d.data.head?.any (· &&& 8 ≠ 0)

namespace QueueRun

/-- The label of a delivery; the message is the one that `Next` selected. -/
def deliverLabel (p : Option Nat) (d : Option Delivery) : List (Label (Bytes × Int) UInt16) :=
  match p, d with
  | some p, some d => [.deliver p d.packetID d.dup]
  | _, _ => []

def step (l : Limits) (r : QueueRun) : QueueOp → Option QueueRun
  | .admitMessage now data off =>
    let (res, s, t) := r.state.admitMessage l now data off r.totals
    some ⟨s, t, r.labels ++ if res = .ok none then [.arrive (data, off)] else []⟩
  | .beginDelivery => some { r with state := r.state.beginDelivery.2, labels := r.labels ++ [.begin] }
  | .pauseDelivery => some { r with state := r.state.pauseDelivery }
  | .resumeDelivery => some { r with state := r.state.resumeDelivery }
  | .next epoch => (r.state.next l epoch r.totals).map fun (d, s, t) =>
      ⟨s, t, r.labels ++ deliverLabel (r.state.select epoch) d⟩
  | .ack id =>
    let (s, t) := r.state.ack id r.totals
    some ⟨s, t, r.labels ++ [.ack id]⟩
  | .others totals => some { r with totals }

/-- Some calls one after the other; `none` if one of them does not return. -/
def run (l : Limits) (ops : List QueueOp) (r : QueueRun) : Option QueueRun := ops.foldlM (step l) r

end QueueRun

/-- How many deliveries begin. -/
def begins (ops : List QueueOp) : Nat := ops.countP (· matches .beginDelivery)

/-- Message `p` was returned in the current epoch. -/
def returned (labels : List (Label (Bytes × Int) UInt16)) (p : Nat) : Bool :=
  (deliveries labels).any fun d => d.epoch = epoch labels && d.msg = p

/-- The laws of a run, at its end. -/
structure QueueLaws (l : Limits) (r : QueueRun) : Prop where
  /-- The queue is the admitted messages in their order, without those whose identifier was
  acknowledged after it was assigned. -/
  entries : r.state.entries =
    (List.range (admitted r.labels).length).filter fun p => !acked p r.labels
  /-- The entries hold what was admitted. -/
  contents : (List.range r.state.allocated).map
    (fun p => ((r.state.heap p).data, (r.state.heap p).packetIDOffset)) = admitted r.labels
  epoch : r.state.epoch.toNat = epoch r.labels
  /-- `Next` with the epoch of a delivery that has begun returns the oldest pending message that was
  not returned in this epoch; nothing if there is none. -/
  next : r.state.epoch ≠ 0 → r.state.paused = false →
    r.state.activeInflight < l.maxInflightMessagesPerSession →
    r.state.select r.state.epoch = r.state.entries.find? (fun p => !returned r.labels p) ∧
    match r.state.entries.find? (fun p => !returned r.labels p) with
    | none => r.state.next l r.state.epoch r.totals = some (none, r.state, r.totals)
    | some p => ∃ id dup s t, r.state.next l r.state.epoch r.totals =
        some (some (State.delivery { r.state.heap p with packetID := id } dup), s, t)
  /-- In one epoch every message comes at most once, in order; DUP iff it came in an earlier one,
  then with the same identifier, and ahead of all others. -/
  deliveries : Laws (deliveries r.labels)
  /-- Any other epoch gets nothing. -/
  stale : ∀ e, e ≠ r.state.epoch → r.state.next l e r.totals = some (none, r.state, r.totals)

/-! ## The invariant of a run -/

open State

/-- The session is the window that its history leads to. -/
structure Tracks (l : Limits) (r : QueueRun) (w : Window UInt16) : Prop extends
    Refines l r.state w where
  run : Run r.labels w
  live : r.state.deleted = false
  epochs : r.state.epoch.toNat = Redelivery.epoch r.labels
  contents : (List.range r.state.allocated).map
    (fun p => ((r.state.heap p).data, (r.state.heap p).packetIDOffset)) = admitted r.labels
  shape : ∀ p < r.state.allocated,
    queuedPublish (r.state.heap p).data (r.state.heap p).packetIDOffset = true

theorem delivery_dup {m : Entry} (h : queuedPublish m.data m.packetIDOffset = true) (replay : Bool) :
    (delivery m replay).dup = replay := by
  have hset : ∀ b : UInt8, (b ||| 8) &&& 8 ≠ 0 := by decide +kernel
  have hclear : ∀ b : UInt8, (b &&& ~~~8) &&& 8 = 0 := by decide +kernel
  obtain ⟨data, off, id, last, accepted⟩ := m
  cases data with
  | nil => simp [queuedPublish] at h
  | cons b data =>
    cases data with
    | nil => simp [queuedPublish] at h
    | cons b' data =>
      simp only [queuedPublish, decide_eq_true_eq] at h
      -- The identifier is not written to the first byte.
      obtain ⟨k, hk⟩ : ∃ k, off.toNat = k + 1 := ⟨off.toNat - 1, by omega⟩
      cases replay with
      | true => simp [delivery, Delivery.dup, hk, hset]
      | false => simp [delivery, Delivery.dup, hk, hclear]

variable {l : Limits} {r : QueueRun} {w : Window UInt16}

theorem Tracks.new (hl : 0 ≤ l.maxInflightMessagesPerSession) (id owner : Bytes) (now : Time)
    (totals : Snapshot) : Tracks l ⟨State.new id owner now, totals, []⟩ {} where
  toRefines := .new hl rfl rfl rfl
  run := .nil
  live := rfl
  epochs := rfl
  contents := rfl
  shape := nofun

theorem Tracks.allocated_eq (h : Tracks l r w) : r.state.allocated = (admitted r.labels).length := by
  rw [← h.contents, List.length_map, List.length_range]

/-- A change of the session that leaves the contents of its entries alone. -/
theorem Tracks.of_refines (h : Tracks l r w) {s : State} {t : Snapshot} {w' : Window UInt16}
    {labels : List (Label (Bytes × Int) UInt16)} (href : Refines l s w') (hrun : Run labels w')
    (hlive : s.deleted = r.state.deleted) (hepoch : s.epoch.toNat = Redelivery.epoch labels)
    (hadm : admitted labels = admitted r.labels) (halloc : s.allocated = r.state.allocated)
    (hheap : ∀ p, (s.heap p).data = (r.state.heap p).data ∧
      (s.heap p).packetIDOffset = (r.state.heap p).packetIDOffset) :
    Tracks l ⟨s, t, labels⟩ w' where
  toRefines := href
  run := hrun
  live := hlive.trans h.live
  epochs := hepoch
  contents := by
    dsimp only
    rw [halloc, hadm, ← h.contents]
    exact List.map_congr_left fun p _ => by rw [(hheap p).1, (hheap p).2]
  shape := by
    intro p hp
    dsimp only at hp ⊢
    rw [(hheap p).1, (hheap p).2]
    exact h.shape p (halloc ▸ hp)

theorem Tracks.append (h : Tracks l r w) (now : Time) {data : Bytes} {off : Int}
    (hq : queuedPublish data off = true) (t : Snapshot) :
    Tracks l ⟨r.state.append now data off, t, r.labels ++ [.arrive (data, off)]⟩
      { w with fresh := w.fresh ++ [r.state.allocated] } where
  toRefines := h.toRefines.append now data off
  run := h.allocated_eq ▸ h.run.arrive (data, off)
  live := h.live
  epochs := by simpa [State.append, Redelivery.epoch] using h.epochs
  contents := by
    simp only [State.append, State.notifyLocked, List.range_succ, List.map_append, List.map_cons, List.map_nil,
      Function.update_self, admitted_append, admitted, ← h.contents]
    congr 1
    apply List.map_congr_left
    intro p hp
    rw [Function.update_of_ne (Nat.ne_of_lt (List.mem_range.mp hp))]
  shape := by
    intro p hp
    simp only [State.append, State.notifyLocked, Function.update_apply] at hp ⊢
    split
    · exact hq
    · exact h.shape p (by omega)

/-- The run goes on with a call: it returns, and the invariant holds after it. -/
def Continues (l : Limits) (r : QueueRun) (op : QueueOp) : Prop :=
  ∃ r' w', r.step l op = some r' ∧ Tracks l r' w' ∧
    Redelivery.epoch r'.labels ≤ Redelivery.epoch r.labels + begins [op]

theorem Tracks.admitMessage (h : Tracks l r w) (now : Time) (data : Bytes) (off : Int) :
    Continues l r (.admitMessage now data off) := by
  rcases hadm : r.state.admitMessage l now data off r.totals with ⟨res, s, t⟩
  have hstep : r.step l (.admitMessage now data off) =
      some ⟨s, t, r.labels ++ if res = .ok none then [.arrive (data, off)] else []⟩ := by
    simp [QueueRun.step, hadm]
  refine ⟨_, ?_, hstep, ?_⟩
  case refine_1 => exact if res = .ok none then { w with fresh := w.fresh ++ [r.state.allocated] } else w
  rcases admit_cases hadm with ⟨rfl, -, e, rfl, -⟩ | ⟨hq, -, ⟨d, -, rfl, rfl, -⟩ | ⟨-, rfl, rfl, -⟩⟩
  · simp only [reduceCtorEq, if_false, List.append_nil]
    exact ⟨h.of_refines h.toRefines h.run rfl h.epochs rfl rfl fun _ => ⟨rfl, rfl⟩, Nat.le_add_right _ _⟩
  · simp only [reduceCtorEq, if_false, List.append_nil, Except.ok.injEq]
    exact ⟨h.of_refines (h.toRefines.congr rfl rfl rfl rfl rfl rfl) h.run rfl h.epochs rfl rfl
      fun _ => ⟨rfl, rfl⟩, Nat.le_add_right _ _⟩
  · simp only [if_true]
    exact ⟨h.append now hq t, by simp [Redelivery.epoch]⟩

theorem Tracks.beginDelivery (h : Tracks l r w) (hwrap : Redelivery.epoch r.labels + 1 < 2 ^ 64) :
    Continues l r .beginDelivery := by
  refine ⟨_, _, rfl, h.of_refines (h.toRefines.beginDelivery (by rw [h.epochs]; exact hwrap)) h.run.begin
    rfl ?_ (by simp [admitted]) rfl fun _ => ⟨rfl, rfl⟩, by simp [Redelivery.epoch, begins]⟩
  have := h.epochs
  simp only [State.beginDelivery, notifyLocked, UInt64.toNat_add, UInt64.toNat_one, epoch_append, Redelivery.epoch]
  omega

theorem Tracks.ack (h : Tracks l r w) (id : UInt16) : Continues l r (.ack id) := by
  rcases hack : r.state.ack id r.totals with ⟨s, t⟩
  have href := h.toRefines.ack h.live id r.totals
  have hsame : s.deleted = r.state.deleted ∧ s.epoch = r.state.epoch ∧
      s.allocated = r.state.allocated ∧ s.heap = r.state.heap := by
    unfold State.ack at hack
    split at hack
    · cases hack; exact ⟨rfl, rfl, rfl, rfl⟩
    · split at hack
      · cases hack; exact ⟨rfl, rfl, rfl, rfl⟩
      · cases hack; exact ⟨rfl, rfl, rfl, rfl⟩
  obtain ⟨hdel, hep, halloc, hheap⟩ := hsame
  rw [hack] at href
  refine ⟨⟨s, t, r.labels ++ [.ack id]⟩, w.drop id, by simp [QueueRun.step, hack],
    h.of_refines href (h.run.ack id) hdel ?_ (by simp [admitted]) halloc fun p => by rw [hheap]; exact ⟨rfl, rfl⟩, ?_⟩
  · rw [hep, h.epochs]
    simp [Redelivery.epoch]
  · simp [Redelivery.epoch]

/-- The entry that an attempt returns has the contents that were admitted. -/
theorem Tracks.delivery_dup (h : Tracks l r w) {p : Nat} (hp : p ∈ r.state.entries) {m : Entry}
    (hdata : m.data = (r.state.heap p).data) (hoff : m.packetIDOffset = (r.state.heap p).packetIDOffset)
    (replay : Bool) : (delivery m replay).dup = replay := by
  apply OrbMQ.delivery_dup
  rw [hdata, hoff]
  exact h.shape p (h.bound p hp)

theorem Tracks.next (h : Tracks l r w) (hl : l.maxInflightMessagesPerSession ≤ 65535) (epoch : UInt64) :
    Continues l r (.next epoch) := by
  rcases h.toRefines.next_cases hl epoch r.totals with
    ⟨hn, -⟩ | ⟨hready, hpos, p, id, rest, hr, hsel, hn⟩ |
    ⟨hready, hpos, p, id, rest, hr, hf, hsel, hfree, hid, hn⟩
  · refine ⟨r, w, ?_, h, Nat.le_add_right _ _⟩
    have hlabel : QueueRun.deliverLabel (r.state.select epoch) none = [] := by
      cases r.state.select epoch <;> rfl
    simp [QueueRun.step, hn, hlabel]
  · have hp : p ∈ r.state.entries := (select_mem hsel).1
    have hid : (r.state.heap p).packetID = id := (h.replay (p, id) (by simp [hr])).1
    have hheap : ∀ q, ((r.state.attempt r.state.epoch p).heap q).data = (r.state.heap q).data ∧
        ((r.state.attempt r.state.epoch p).heap q).packetIDOffset = (r.state.heap q).packetIDOffset := by
      intro q
      rw [heap_attempt]
      split
      · rename_i hq; subst hq; exact ⟨rfl, rfl⟩
      · exact ⟨rfl, rfl⟩
    refine ⟨⟨r.state.attempt r.state.epoch p, r.totals, r.labels ++ [.deliver p id true]⟩, _, ?_,
      h.of_refines (h.toRefines.attempt hpos hr) (h.run.replay hr) rfl ?_ (by simp [admitted]) rfl hheap, ?_⟩
    · have hdup := h.delivery_dup hp (hheap p).1 (hheap p).2 true
      have hpid : (delivery ((r.state.attempt r.state.epoch p).heap p) true).packetID = id := by
        rw [heap_attempt, if_pos rfl]; exact hid
      simp [QueueRun.step, hn, hsel, QueueRun.deliverLabel, hdup, hpid]
    · exact h.epochs.trans (by simp [Redelivery.epoch])
    · simp [Redelivery.epoch]
  · have hp : p ∈ r.state.entries := (select_mem hsel).1
    have hheap : ∀ q, (((r.state.assign p id).attempt r.state.epoch p).heap q).data = (r.state.heap q).data ∧
        (((r.state.assign p id).attempt r.state.epoch p).heap q).packetIDOffset =
          (r.state.heap q).packetIDOffset := by
      intro q
      rw [heap_attempt, heap_assign, heap_assign]
      split
      · rename_i hq; subst hq; rw [if_pos rfl]; exact ⟨rfl, rfl⟩
      · exact ⟨rfl, rfl⟩
    refine ⟨⟨(r.state.assign p id).attempt r.state.epoch p,
        { r.totals with inflightMessages := r.totals.inflightMessages + 1 },
        r.labels ++ [.deliver p id false]⟩, _, ?_,
      h.of_refines (h.toRefines.assign hpos hready.window hr hf hfree hid) (h.run.first id hr hf) rfl ?_
        (by simp [admitted]) rfl hheap, ?_⟩
    · have hdup := h.delivery_dup hp (hheap p).1 (hheap p).2 false
      have hpid : (delivery (((r.state.assign p id).attempt r.state.epoch p).heap p) false).packetID = id := by
        rw [heap_attempt, if_pos rfl, heap_assign, if_pos rfl]; rfl
      simp [QueueRun.step, hn, hsel, QueueRun.deliverLabel, hdup, hpid]
    · exact h.epochs.trans (by simp [Redelivery.epoch])
    · simp [Redelivery.epoch]

theorem Tracks.step (h : Tracks l r w) (hl : l.maxInflightMessagesPerSession ≤ 65535) (op : QueueOp)
    (hwrap : Redelivery.epoch r.labels + begins [op] < 2 ^ 64) : Continues l r op := by
  cases op with
  | admitMessage now data off => exact h.admitMessage now data off
  | beginDelivery => exact h.beginDelivery hwrap
  | pauseDelivery =>
    exact ⟨_, w, rfl, h.of_refines (h.toRefines.congr rfl rfl rfl rfl rfl rfl) h.run rfl h.epochs rfl rfl
      fun _ => ⟨rfl, rfl⟩, Nat.le_add_right _ _⟩
  | resumeDelivery =>
    exact ⟨_, w, rfl, h.of_refines (h.toRefines.congr rfl rfl rfl rfl rfl rfl) h.run rfl h.epochs rfl rfl
      fun _ => ⟨rfl, rfl⟩, Nat.le_add_right _ _⟩
  | next epoch => exact h.next hl epoch
  | ack id => exact h.ack id
  | others totals =>
    exact ⟨_, w, rfl, h.of_refines h.toRefines h.run rfl h.epochs rfl rfl fun _ => ⟨rfl, rfl⟩,
      Nat.le_add_right _ _⟩

/-- A whole run: every call returns. -/
theorem Tracks.run_ops (h : Tracks l r w) (hl : l.maxInflightMessagesPerSession ≤ 65535)
    (ops : List QueueOp) (hwrap : Redelivery.epoch r.labels + begins ops < 2 ^ 64) :
    ∃ r' w', QueueRun.run l ops r = some r' ∧ Tracks l r' w' := by
  induction ops generalizing r w with
  | nil => exact ⟨r, w, rfl, h⟩
  | cons op ops ih =>
    have hsplit : begins (op :: ops) = begins [op] + begins ops := by
      simp [begins, List.countP_cons]
      omega
    obtain ⟨r', w', hstep, h', hep⟩ := h.step hl op (by omega)
    obtain ⟨r'', w'', hrun, h''⟩ := ih h' (by omega)
    refine ⟨r'', w'', ?_, h''⟩
    simpa [QueueRun.run, hstep] using hrun

/-! ## The laws -/

/-- Two lists in increasing order with the same members. -/
theorem Tracks.entries_eq (h : Tracks l r w) :
    r.state.entries = (List.range (admitted r.labels).length).filter fun p => !acked p r.labels := by
  have F := h.run.facts
  have hsorted : ((List.range (admitted r.labels).length).filter fun p => !acked p r.labels).Pairwise
      (· < ·) := List.Pairwise.filter _ List.pairwise_lt_range
  rw [h.pending]
  refine F.sorted.eq_of_mem_iff hsorted fun p => ?_
  simp only [List.mem_filter, List.mem_range, Bool.not_eq_true']
  constructor
  · intro hp
    have hb := F.bound p hp
    exact ⟨hb, (F.mem p hb).mp hp⟩
  · rintro ⟨hb, ha⟩
    exact (F.mem p hb).mpr ha

/-- The messages of the window that were returned in this epoch are its first part. -/
theorem Tracks.find?_eq (h : Tracks l r w) :
    r.state.entries.find? (fun p => !returned r.labels p) = w.waiting.head? := by
  have F := h.run.facts
  rw [h.pending, Window.pending, List.find?_append]
  have hsent : (w.sent.map Prod.fst).find? (fun p => !returned r.labels p) = none := by
    rw [List.find?_eq_none]
    intro p hp
    obtain ⟨x, hx, rfl⟩ := List.mem_map.mp hp
    obtain ⟨d, hd, he, hm, -⟩ := F.sent x hx
    have : returned r.labels x.1 = true := by
      simp only [returned, List.any_eq_true, Bool.and_eq_true, decide_eq_true_eq]
      exact ⟨d, hd, he, hm⟩
    simp [this]
  rw [hsent, Option.none_or]
  cases hw : w.waiting with
  | nil => rfl
  | cons p rest =>
    rw [List.find?_cons_of_pos, List.head?_cons]
    rw [Bool.not_eq_true', ← Bool.not_eq_true]
    intro hret
    simp only [returned, List.any_eq_true, Bool.and_eq_true, decide_eq_true_eq] at hret
    obtain ⟨d, hd, he, hm⟩ := hret
    have := F.before d hd he p (by rw [hw]; exact List.mem_cons_self)
    omega

theorem Tracks.laws (h : Tracks l r w) (hl : l.maxInflightMessagesPerSession ≤ 65535) : QueueLaws l r where
  entries := h.entries_eq
  contents := h.contents
  epoch := h.epochs
  deliveries := h.run.laws
  stale := fun e he => next_of_not_ready (fun hr => he hr.current) _
  next := by
    intro h0 hpaused hwin
    have hready : Ready l r.state.epoch r.state := ⟨h.live, hpaused, rfl, hwin⟩
    have hpos : 0 < r.state.epoch := UInt64.pos_iff_ne_zero.mpr h0
    rw [h.find?_eq, h.toRefines.select_eq, if_neg h0]
    refine ⟨rfl, ?_⟩
    rcases h.toRefines.next_cases hl r.state.epoch r.totals with
      ⟨hn, hw⟩ | ⟨-, -, p, id, rest, hr, -, hn⟩ | ⟨-, -, p, id, rest, hr, hf, -, -, -, hn⟩
    · rw [hw hready hpos]
      exact hn
    · have hw : w.waiting.head? = some p := by simp [Window.waiting, hr]
      rw [hw]
      rw [heap_attempt, if_pos rfl] at hn
      exact ⟨_, true, _, _, hn⟩
    · have hw : w.waiting.head? = some p := by simp [Window.waiting, hr, hf]
      rw [hw]
      rw [heap_attempt, if_pos rfl, heap_assign, if_pos rfl] at hn
      exact ⟨id, false, _, _, hn⟩

/-- Every run of a session's queue obeys the laws, as long as the epoch does not wrap. -/
theorem queue_laws (l : Limits) (hl : l.validate = .ok ()) (id owner : Bytes) (now : Time)
    (totals : Snapshot) (ops : List QueueOp) (hops : begins ops < 2 ^ 64) :
    ∃ r, QueueRun.run l ops ⟨State.new id owner now, totals, []⟩ = some r ∧ QueueLaws l r := by
  have hvalid := (l.validate_iff).mp hl
  have hpos := hvalid.pending.2.2.2.2
  have hmax := hvalid.inflight.1
  obtain ⟨r, w, hr, h⟩ := (Tracks.new hpos.le id owner now totals).run_ops hmax ops
    (by simpa [Redelivery.epoch] using hops)
  exact ⟨r, hr, h.laws hmax⟩

/-- A message that is sent in one epoch, sent again in the next and acknowledged. -/
theorem queue_laws_replay :
    begins [.admitMessage 0 [0x32, 5, 0, 1, 97, 0, 1] 5, .beginDelivery, .next 1, .beginDelivery, .next 2, .ack 1] <
        2 ^ 64 ∧
      ∃ r, QueueRun.run defaultLimits
          [.admitMessage 0 [0x32, 5, 0, 1, 97, 0, 1] 5, .beginDelivery, .next 1, .beginDelivery, .next 2, .ack 1]
          ⟨State.new [99] [] 0, {}, []⟩ = some r ∧ QueueLaws defaultLimits r :=
  ⟨by decide, queue_laws _ defaultLimits_valid _ _ _ _ _ (by decide)⟩

/-- Before the first delivery begins, `Next` with the current epoch 0 returns nothing, although a
message is pending, delivery is not paused and the window is empty. -/
theorem next_nothing_before_begin :
    ∃ r, QueueRun.run defaultLimits [.admitMessage 0 [0x32, 5, 0, 1, 97, 0, 1] 5] ⟨State.new [99] [] 0, {}, []⟩ =
        some r ∧
      r.state.paused = false ∧ r.state.activeInflight < defaultLimits.maxInflightMessagesPerSession ∧
      r.state.entries.find? (fun p => !returned r.labels p) = some 0 ∧
      r.state.next defaultLimits r.state.epoch r.totals = some (none, r.state, r.totals) :=
  ⟨_, rfl, rfl, by decide, rfl, rfl⟩

end OrbMQ
