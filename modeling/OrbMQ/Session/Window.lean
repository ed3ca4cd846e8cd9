import OrbMQ.Lib.Redelivery
import OrbMQ.Session.Queue

/-!
# The queue is a redelivery window

`State.Pointers`: the pointers of a session are in order, and `inflight` has exactly the entries
with an identifier, under it. Every call keeps that.

`Refines l s w`: the session `s` is the window `w`. The entries sent in the current epoch come
first, then those of earlier epochs, then those without an identifier. `Next` takes the first entry
that is not in the first part, so replays go before new identifiers are assigned: that bounds the
identifiers in use by the window, and the search for a free one ends (`freePacketID_isSome`).
-/

namespace OrbMQ

open Go Redelivery

namespace State

/-! ## Packet identifiers -/

theorem nextID_ne_zero (id : UInt16) : nextID id ≠ 0 := by
  unfold nextID
  split
  · decide
  · assumption

theorem toNat_nextID (id : UInt16) : (nextID id).toNat = id.toNat % 65535 + 1 := by
  have hlt := id.toNat_lt
  have hadd : (id + 1).toNat = (id.toNat + 1) % 65536 := by simp [UInt16.toNat_add]
  unfold nextID
  split
  · rename_i h0
    rw [h0] at hadd
    have : (0 : UInt16).toNat = 0 := rfl
    have : (1 : UInt16).toNat = 1 := rfl
    omega
  · rename_i h0
    have : (id + 1).toNat ≠ 0 := fun h => h0 (UInt16.toNat_inj.mp h)
    omega

theorem toNat_iterate_nextID (id : UInt16) (k : Nat) :
    (nextID^[k + 1] id).toNat = (id.toNat + k) % 65535 + 1 := by
  induction k with
  | zero => exact toNat_nextID id
  | succ k ih =>
    rw [Function.iterate_succ_apply', toNat_nextID, ih]
    omega

theorem freePacketID_spec {inflight : Go.Map UInt16 Nat} {fuel : Nat} {id i : UInt16}
    (h : freePacketID inflight fuel id = some i) : inflight[i]? = none ∧ i ≠ 0 := by
  induction fuel generalizing id with
  | zero => cases h
  | succ fuel ih =>
    rw [freePacketID] at h
    split at h
    · rename_i hn
      cases h
      exact ⟨hn, nextID_ne_zero id⟩
    · exact ih h

theorem freePacketID_none {inflight : Go.Map UInt16 Nat} {fuel : Nat} {id : UInt16}
    (h : freePacketID inflight fuel id = none) :
    ∀ k < fuel, inflight[nextID^[k + 1] id]? ≠ none := by
  induction fuel generalizing id with
  | zero => exact fun k hk => absurd hk (Nat.not_lt_zero k)
  | succ fuel ih =>
    rw [freePacketID] at h
    split at h
    · cases h
    · rename_i hn
      intro k hk
      cases k with
      | zero => exact hn
      | succ k =>
        rw [Function.iterate_succ_apply]
        exact ih h k (by omega)

/-- The search ends when some identifier is free. -/
theorem freePacketID_isSome {inflight : Go.Map UInt16 Nat} (hs : inflight.size < 65535) (id : UInt16) :
    ∃ i, freePacketID inflight 65536 id = some i := by
  cases h : freePacketID inflight 65536 id with
  | some i => exact ⟨i, rfl⟩
  | none =>
    exfalso
    -- The search has seen each of the 65535 identifiers in use.
    have hall : ∀ i : UInt16, i ≠ 0 → i ∈ Map.dom inflight := by
      intro i hi
      have hlt := i.toNat_lt
      have hlt' := id.toNat_lt
      have hpos : i.toNat ≠ 0 := fun h => hi (UInt16.toNat_inj.mp h)
      have hk := freePacketID_none h ((i.toNat + 131070 - 1 - id.toNat) % 65535) (by omega)
      have he : nextID^[(i.toNat + 131070 - 1 - id.toNat) % 65535 + 1] id = i := by
        apply UInt16.toNat_inj.mp
        rw [toNat_iterate_nextID]
        omega
      rw [he] at hk
      exact (Map.mem_dom _ _).mpr (Option.ne_none_iff_exists'.mp hk)
    have hcard : 65535 ≤ (Map.dom inflight).card := by
      have hinj : Set.InjOn (fun k => UInt16.ofNat (k + 1)) (Finset.range 65535 : Set Nat) := by
        intro a ha b hb hab
        have ha := Finset.mem_range.mp ha
        have hb := Finset.mem_range.mp hb
        have := congrArg UInt16.toNat hab
        simp only [UInt16.toNat_ofNat'] at this
        omega
      have := Finset.card_le_card_of_injOn _ (s := Finset.range 65535) (t := Map.dom inflight) ?_ hinj
      · rwa [Finset.card_range] at this
      · intro k hk
        have hk := Finset.mem_range.mp hk
        refine hall _ fun h0 => ?_
        have := congrArg UInt16.toNat h0
        simp only [UInt16.toNat_ofNat'] at this
        have h00 : (0 : UInt16).toNat = 0 := rfl
        omega
    rw [Map.card_dom] at hcard
    omega

/-! ## Pointers -/

/-- The pointers of a session are as they should be, whether or not it was removed. -/
structure Pointers (s : State) : Prop where
  sorted : s.entries.Pairwise (· < ·)
  bound : ∀ p ∈ s.entries, p < s.allocated
  inflight : ∀ (id : UInt16) p, s.inflight[id]? = some p ↔
    p ∈ s.entries ∧ (s.heap p).packetID = id ∧ id ≠ 0

/-- Only the pointers and the identifiers matter. -/
theorem Pointers.congr {s s' : State} (h : s.Pointers) (he : s'.entries = s.entries)
    (ha : s'.allocated = s.allocated) (hi : s'.inflight = s.inflight)
    (hp : ∀ p ∈ s.entries, (s'.heap p).packetID = (s.heap p).packetID) : s'.Pointers := by
  refine ⟨he ▸ h.sorted, by rw [he, ha]; exact h.bound, ?_⟩
  intro id p
  rw [he, hi, h.inflight]
  exact and_congr_right fun hm => by rw [hp p hm]

theorem Pointers.empty {s : State} (he : s.entries = []) (hi : s.inflight = ∅) : s.Pointers := by
  refine ⟨by simp [he], by simp [he], ?_⟩
  simp [he, hi]

theorem Pointers.append {s : State} (h : s.Pointers) (now : Time) (data : Bytes) (off : Int) :
    (s.append now data off).Pointers := by
  have hold : ∀ p ∈ s.entries, ((s.append now data off).heap p) = s.heap p := by
    intro p hp
    have := h.bound p hp
    simp [State.append, Function.update_of_ne (show p ≠ s.allocated by omega)]
  constructor
  case sorted =>
    rw [show (s.append now data off).entries = s.entries ++ [s.allocated] from rfl, List.pairwise_append]
    exact ⟨h.sorted, List.pairwise_singleton _ _, by simpa using h.bound⟩
  case bound =>
    intro p hp
    simp only [State.append, State.notifyLocked, List.mem_append, List.mem_singleton] at hp ⊢
    rcases hp with hp | rfl
    · have := h.bound p hp
      omega
    · omega
  case inflight =>
    intro id p
    rw [show (s.append now data off).inflight = s.inflight from rfl, h.inflight]
    simp only [show (s.append now data off).entries = s.entries ++ [s.allocated] from rfl,
      List.mem_append, List.mem_singleton]
    constructor
    · rintro ⟨hp, hid⟩
      exact ⟨.inl hp, by rw [hold p hp]; exact hid⟩
    · rintro ⟨hp | rfl, hid, hne⟩
      · exact ⟨hp, by rw [← hold p hp]; exact hid, hne⟩
      · -- The new entry has no identifier.
        simp [State.append] at hid
        exact absurd hid.symm hne

theorem Pointers.attempt {s : State} (h : s.Pointers) (epoch : UInt64) (p : Nat) :
    (s.attempt epoch p).Pointers := by
  refine h.congr rfl rfl rfl fun q _ => ?_
  simp only [State.attempt, setEntry, Function.update_apply]
  split
  · rename_i hq; rw [hq]
  · rfl

theorem Pointers.assign {s : State} (h : s.Pointers) {p : Nat} {id : UInt16} (hp : p ∈ s.entries)
    (hp0 : (s.heap p).packetID = 0) (hfree : s.inflight[id]? = none) (hid : id ≠ 0) :
    (s.assign p id).Pointers := by
  have hheap : ∀ q, ((s.assign p id).heap q).packetID = if q = p then id else (s.heap q).packetID := by
    intro q
    simp only [State.assign, setEntry, Function.update_apply]
    split <;> rfl
  refine ⟨h.sorted, h.bound, ?_⟩
  intro i q
  rw [show (s.assign p id).inflight = s.inflight.insert id p from rfl, Map.get_insert, hheap]
  change _ ↔ q ∈ s.entries ∧ _
  by_cases hi : id = i
  · subst hi
    rw [if_pos rfl]
    constructor
    · rintro ⟨rfl⟩
      exact ⟨hp, by simp, hid⟩
    · rintro ⟨hq, hq', -⟩
      by_cases hqp : q = p
      · rw [hqp]
      · rw [if_neg hqp] at hq'
        rw [(h.inflight id q).mpr ⟨hq, hq', hid⟩] at hfree
        cases hfree
  · rw [if_neg hi, h.inflight]
    by_cases hqp : q = p
    · subst hqp
      simp only [hp0, if_true]
      constructor
      · rintro ⟨-, h0, hne⟩
        exact absurd h0.symm hne
      · rintro ⟨-, h0, -⟩
        exact absurd h0 hi
    · rw [if_neg hqp]

theorem Pointers.ack {s : State} (h : s.Pointers) (id : UInt16) (t : Snapshot) :
    (s.ack id t).1.Pointers := by
  by_cases hd : s.deleted = true
  · rw [ack_of_none (.inr hd)]
    exact h
  cases hp : s.inflight[id]? with
  | none =>
    rw [ack_of_none (.inl hp)]
    exact h
  | some p =>
    rw [ack_of_some hp (by simpa using hd)]
    have hn : s.entries.Nodup := h.sorted.imp Nat.ne_of_lt
    obtain ⟨hpe, hpid, -⟩ := (h.inflight id p).mp hp
    refine ⟨h.sorted.sublist List.erase_sublist, fun q hq => h.bound q (List.mem_of_mem_erase hq), ?_⟩
    intro i q
    change (s.inflight.erase id)[i]? = some q ↔ q ∈ s.entries.erase p ∧ (s.heap q).packetID = i ∧ i ≠ 0
    rw [Map.get_erase, hn.mem_erase_iff]
    by_cases hi : id = i
    · subst hi
      rw [if_pos rfl]
      refine iff_of_false nofun ?_
      rintro ⟨⟨hqp, hqe⟩, hqid⟩
      rw [(h.inflight id q).mpr ⟨hqe, hqid⟩] at hp
      cases hp
      exact hqp rfl
    · rw [if_neg hi, h.inflight]
      constructor
      · rintro ⟨hqe, hqid, hne⟩
        refine ⟨⟨?_, hqe⟩, hqid, hne⟩
        rintro rfl
        exact hi (hpid.symm.trans hqid)
      · rintro ⟨⟨-, hqe⟩, hqid⟩
        exact ⟨hqe, hqid⟩

theorem select_mem {s : State} {epoch : UInt64} {p : Nat} (h : s.select epoch = some p) :
    p ∈ s.entries ∧ (s.heap p).lastEpoch ≠ epoch := by
  refine ⟨List.mem_of_find?_eq_some h, ?_⟩
  simpa using List.find?_some h

theorem Pointers.next {s s' : State} (h : s.Pointers) {l : Limits} {epoch : UInt64} {t t' : Snapshot}
    {r : Option Delivery} (hn : s.next l epoch t = some (r, s', t')) : s'.Pointers := by
  rcases next_cases hn with ⟨-, rfl, -⟩ | ⟨-, p, hp, ⟨-, -, rfl, -⟩ | ⟨hp0, id, hid, -, rfl, -⟩⟩
  · exact h
  · exact h.attempt epoch p
  · obtain ⟨hfree, hne⟩ := freePacketID_spec hid
    exact (h.assign (select_mem hp).1 hp0 hfree hne).attempt epoch p

theorem Pointers.admitMessage {s s' : State} (h : s.Pointers) {l : Limits} {now : Time} {data : Bytes} {off : Int}
    {t t' : Snapshot} {r : Except Err (Option DropReason)}
    (ha : s.admitMessage l now data off t = (r, s', t')) : s'.Pointers := by
  rcases admit_cases ha with ⟨rfl, -, -⟩ | ⟨-, -, ⟨d, -, -, rfl, -⟩ | ⟨-, -, rfl, -⟩⟩
  · exact h
  · exact h.congr rfl rfl rfl fun _ _ => rfl
  · exact h.append now data off

/-! ## The window -/

/-- The session `s` is the window `w`, within its limits. -/
structure Refines (l : Limits) (s : State) (w : Window UInt16) : Prop extends s.Pointers where
  pending : s.entries = w.pending
  sent : ∀ x ∈ w.sent, (s.heap x.1).packetID = x.2 ∧ x.2 ≠ 0 ∧ (s.heap x.1).lastEpoch = s.epoch ∧
    0 < s.epoch
  replay : ∀ x ∈ w.replay, (s.heap x.1).packetID = x.2 ∧ x.2 ≠ 0 ∧ (s.heap x.1).lastEpoch < s.epoch
  fresh : ∀ p ∈ w.fresh, (s.heap p).packetID = 0 ∧ (s.heap p).lastEpoch = 0
  size : s.inflight.size = w.assigned.length
  active : s.activeInflight = w.sent.length
  window : (w.assigned.length : Int) ≤ l.maxInflightMessagesPerSession

variable {l : Limits} {s : State} {w : Window UInt16}

/-- Only what concerns the queue matters. -/
theorem Refines.congr {s' : State} (h : Refines l s w) (he : s'.entries = s.entries)
    (ha : s'.allocated = s.allocated) (hi : s'.inflight = s.inflight) (hh : s'.heap = s.heap)
    (hep : s'.epoch = s.epoch) (hact : s'.activeInflight = s.activeInflight) : Refines l s' w where
  toPointers := h.toPointers.congr he ha hi fun _ _ => by rw [hh]
  pending := he ▸ h.pending
  sent := by rw [hh, hep]; exact h.sent
  replay := by rw [hh, hep]; exact h.replay
  fresh := by rw [hh]; exact h.fresh
  size := hi ▸ h.size
  active := hact ▸ h.active
  window := h.window

/-- A new session has an empty window. -/
theorem Refines.new (hl : 0 ≤ l.maxInflightMessagesPerSession) {s : State} (he : s.entries = [])
    (hi : s.inflight = ∅) (hact : s.activeInflight = 0) : Refines l s {} where
  toPointers := .empty he hi
  pending := he
  sent := by simp
  replay := by simp
  fresh := by simp
  size := by simp [hi, Window.assigned]
  active := by simp [hact]
  window := by simpa [Window.assigned] using hl

theorem Refines.mem_assigned (h : Refines l s w) {x : Nat × UInt16} (hx : x ∈ w.assigned) :
    (s.heap x.1).packetID = x.2 ∧ x.2 ≠ 0 := by
  rcases List.mem_append.mp hx with hx | hx
  · exact ⟨(h.sent x hx).1, (h.sent x hx).2.1⟩
  · exact ⟨(h.replay x hx).1, (h.replay x hx).2.1⟩

theorem Refines.assigned_iff (h : Refines l s w) (p : Nat) (id : UInt16) :
    (p, id) ∈ w.assigned ↔ p ∈ s.entries ∧ (s.heap p).packetID = id ∧ id ≠ 0 := by
  rw [h.pending, w.pending_eq, List.mem_append]
  constructor
  · intro hx
    exact ⟨.inl (List.mem_map_of_mem hx), h.mem_assigned hx⟩
  · rintro ⟨hp | hp, hid, hne⟩
    · obtain ⟨⟨q, i⟩, hx, rfl⟩ := List.mem_map.mp hp
      obtain rfl : i = id := (h.mem_assigned hx).1.symm.trans hid
      exact hx
    · rw [(h.fresh p hp).1] at hid
      exact absurd hid.symm hne

theorem Refines.inflight_iff (h : Refines l s w) (id : UInt16) (p : Nat) :
    s.inflight[id]? = some p ↔ (p, id) ∈ w.assigned := by
  rw [h.inflight, h.assigned_iff]

/-- `Next` takes the first message that waits, once a delivery has begun. -/
theorem Refines.select_eq (h : Refines l s w) :
    s.select s.epoch = if s.epoch = 0 then none else w.waiting.head? := by
  unfold select
  by_cases h0 : s.epoch = 0
  · rw [if_pos h0, List.find?_eq_none]
    intro p hp
    rw [h.pending, w.pending_eq, List.mem_append] at hp
    rcases hp with hp | hp
    · obtain ⟨x, hx, rfl⟩ := List.mem_map.mp hp
      exfalso
      rcases List.mem_append.mp hx with hx | hx
      · have := (h.sent x hx).2.2.2
        rw [h0] at this
        exact absurd this (by decide)
      · have := (h.replay x hx).2.2
        rw [h0] at this
        exact absurd this UInt64.not_lt_zero
    · simp [(h.fresh p hp).2, h0]
  · rw [if_neg h0, h.pending, Window.pending, List.find?_append]
    have hsent : (w.sent.map Prod.fst).find? (fun p => decide ((s.heap p).lastEpoch ≠ s.epoch)) = none := by
      rw [List.find?_eq_none]
      intro p hp
      obtain ⟨x, hx, rfl⟩ := List.mem_map.mp hp
      simp [(h.sent x hx).2.2.1]
    rw [hsent, Option.none_or]
    cases hw : w.waiting with
    | nil => rfl
    | cons p rest =>
      rw [List.find?_cons_of_pos, List.head?_cons]
      have hp : p ∈ w.waiting := by rw [hw]; exact List.mem_cons_self
      rw [Window.waiting, List.mem_append] at hp
      rcases hp with hp | hp
      · obtain ⟨x, hx, rfl⟩ := List.mem_map.mp hp
        simpa using UInt64.ne_of_lt (h.replay x hx).2.2
      · simpa [(h.fresh p hp).2] using Ne.symm h0

theorem Refines.append (h : Refines l s w) (now : Time) (data : Bytes) (off : Int) :
    Refines l (s.append now data off) { w with fresh := w.fresh ++ [s.allocated] } := by
  have hold : ∀ p ∈ w.pending, (s.append now data off).heap p = s.heap p := by
    intro p hp
    have := h.bound p (h.pending ▸ hp)
    simp [State.append, Function.update_of_ne (show p ≠ s.allocated by omega)]
  have hassigned : ∀ x ∈ w.assigned, x.1 ∈ w.pending := fun x hx => by
    rw [w.pending_eq]
    exact List.mem_append_left _ (List.mem_map_of_mem hx)
  refine ⟨h.toPointers.append now data off, ?_, ?_, ?_, ?_, h.size, h.active, h.window⟩
  · simp [State.append, h.pending, Window.pending, Window.waiting]
  · intro x hx
    rw [hold _ (hassigned x (List.mem_append_left _ hx))]
    exact h.sent x hx
  · intro x hx
    rw [hold _ (hassigned x (List.mem_append_right _ hx))]
    exact h.replay x hx
  · intro p hp
    rcases List.mem_append.mp hp with hp | hp
    · rw [hold p (by rw [w.pending_eq]; exact List.mem_append_right _ hp)]
      exact h.fresh p hp
    · obtain rfl := List.mem_singleton.mp hp
      simp [State.append]

/-- A new epoch, unless the counter wraps. -/
theorem Refines.beginDelivery (h : Refines l s w) (hwrap : s.epoch.toNat + 1 < 2 ^ 64) :
    Refines l s.beginDelivery.2 { w with sent := [], replay := w.sent ++ w.replay } := by
  have hlt : s.epoch < s.epoch + 1 := by
    rw [UInt64.lt_iff_toNat_lt, UInt64.toNat_add, UInt64.toNat_one]
    omega
  refine ⟨h.toPointers.congr rfl rfl rfl fun _ _ => rfl, ?_, by simp, ?_, h.fresh, ?_, rfl, ?_⟩
  · simp [State.beginDelivery, h.pending, Window.pending, Window.waiting]
  · intro x hx
    rcases List.mem_append.mp hx with hx | hx
    · obtain ⟨hid, hne, hep, -⟩ := h.sent x hx
      exact ⟨hid, hne, by rw [show s.beginDelivery.2.heap = s.heap from rfl, hep]; exact hlt⟩
    · obtain ⟨hid, hne, hep⟩ := h.replay x hx
      exact ⟨hid, hne, UInt64.lt_trans hep hlt⟩
  · simpa [State.beginDelivery, Window.assigned] using h.size
  · simpa [Window.assigned] using h.window

theorem heap_attempt (epoch : UInt64) (p q : Nat) (s : State) :
    (s.attempt epoch p).heap q = if q = p then { s.heap p with lastEpoch := epoch } else s.heap q := by
  simp only [State.attempt, setEntry, Function.update_apply]

theorem heap_assign (p : Nat) (id : UInt16) (q : Nat) (s : State) :
    (s.assign p id).heap q = if q = p then { s.heap p with packetID := id } else s.heap q := by
  simp only [State.assign, setEntry, Function.update_apply]

/-- No message is twice in the window. -/
theorem Refines.pairwise (h : Refines l s w) : w.pending.Pairwise (· < ·) := h.pending ▸ h.sorted

/-- Another attempt of the first message to replay. -/
theorem Refines.attempt (h : Refines l s w) (h0 : 0 < s.epoch) {p : Nat} {id : UInt16}
    {rest : List (Nat × UInt16)} (hr : w.replay = (p, id) :: rest) :
    Refines l (s.attempt s.epoch p) { w with sent := w.sent ++ [(p, id)], replay := rest } := by
  have hs := h.pairwise
  simp only [Window.pending, Window.waiting, hr, List.map_cons, List.cons_append, List.pairwise_append,
    List.pairwise_cons, List.mem_append, List.mem_cons] at hs
  have hsent : ∀ x ∈ w.sent, x.1 ≠ p := fun x hx =>
    Nat.ne_of_lt (hs.2.2 x.1 (List.mem_map_of_mem hx) p (.inl rfl))
  have hrest : ∀ q ∈ rest.map Prod.fst ++ w.fresh, q ≠ p := fun q hq =>
    Nat.ne_of_gt (hs.2.1.1 q (List.mem_append.mp hq))
  refine ⟨h.toPointers.attempt s.epoch p, ?_, ?_, ?_, ?_, ?_, ?_, ?_⟩
  · simp [State.attempt, setEntry, h.pending, Window.pending, Window.waiting, hr]
  · intro x hx
    rw [heap_attempt]
    rcases List.mem_append.mp hx with hx | hx
    · rw [if_neg (hsent x hx)]
      exact h.sent x hx
    · obtain rfl := List.mem_singleton.mp hx
      rw [if_pos rfl]
      obtain ⟨hid, hne, -⟩ := h.replay (p, id) (by simp [hr])
      exact ⟨hid, hne, rfl, h0⟩
  · intro x hx
    rw [heap_attempt, if_neg (hrest _ (List.mem_append_left _ (List.mem_map_of_mem hx)))]
    exact h.replay x (by rw [hr]; exact List.mem_cons_of_mem _ hx)
  · intro q hq
    rw [heap_attempt, if_neg (hrest _ (List.mem_append_right _ hq))]
    exact h.fresh q hq
  · simpa [State.attempt, setEntry, Window.assigned, hr] using h.size
  · simp [State.attempt, setEntry, h.active]
  · simpa [Window.assigned, hr] using h.window

/-- The first attempt of a message: there is nothing left to replay. -/
theorem Refines.assign (h : Refines l s w) (h0 : 0 < s.epoch)
    (hroom : s.activeInflight < l.maxInflightMessagesPerSession) {p : Nat} {id : UInt16} {rest : List Nat}
    (hr : w.replay = []) (hf : w.fresh = p :: rest) (hfree : s.inflight[id]? = none) (hid : id ≠ 0) :
    Refines l ((s.assign p id).attempt s.epoch p)
      { w with sent := w.sent ++ [(p, id)], fresh := rest } := by
  have hs := h.pairwise
  simp only [Window.pending, Window.waiting, hr, hf, List.map_nil, List.nil_append,
    List.pairwise_append, List.pairwise_cons, List.mem_cons] at hs
  have hsent : ∀ x ∈ w.sent, x.1 ≠ p := fun x hx =>
    Nat.ne_of_lt (hs.2.2 x.1 (List.mem_map_of_mem hx) p (.inl rfl))
  have hrest : ∀ q ∈ rest, q ≠ p := fun q hq => Nat.ne_of_gt (hs.2.1.1 q hq)
  have hheap : ∀ q, q ≠ p → ((s.assign p id).attempt s.epoch p).heap q = s.heap q := by
    intro q hq
    rw [heap_attempt, if_neg hq, heap_assign, if_neg hq]
  have hp : p ∈ w.fresh := by simp [hf]
  have hpe : p ∈ s.entries := by
    rw [h.pending, w.pending_eq]
    exact List.mem_append_right _ hp
  refine ⟨(h.toPointers.assign hpe (h.fresh p hp).1 hfree hid).attempt s.epoch p, ?_, ?_, ?_, ?_, ?_, ?_, ?_⟩
  · simp [State.attempt, State.assign, setEntry, h.pending, Window.pending, Window.waiting, hr, hf]
  · intro x hx
    rcases List.mem_append.mp hx with hx | hx
    · rw [hheap _ (hsent x hx)]
      exact h.sent x hx
    · obtain rfl := List.mem_singleton.mp hx
      rw [heap_attempt, if_pos rfl, heap_assign, if_pos rfl]
      exact ⟨rfl, hid, rfl, h0⟩
  · simp [hr]
  · intro q hq
    rw [hheap q (hrest q hq)]
    exact h.fresh q (by rw [hf]; exact List.mem_cons_of_mem _ hq)
  · have hsize := h.size
    simp only [Window.assigned, hr, List.append_nil] at hsize
    simp [State.attempt, State.assign, setEntry, Window.assigned, hr, Map.size_insert_new _ _ hfree, hsize]
  · simp [State.attempt, State.assign, setEntry, h.active]
  · have hact := h.active
    simp only [Window.assigned, hr, List.append_nil, List.length_append, List.length_singleton]
    omega

/-- What `Next` does, in terms of the window. It always returns. -/
theorem Refines.next_cases (h : Refines l s w) (hl : l.maxInflightMessagesPerSession ≤ 65535)
    (epoch : UInt64) (t : Snapshot) :
    (s.next l epoch t = some (none, s, t) ∧ (Ready l epoch s → 0 < s.epoch → w.waiting = [])) ∨
    (Ready l epoch s ∧ 0 < s.epoch ∧ ∃ p id rest, w.replay = (p, id) :: rest ∧
      s.select epoch = some p ∧
      s.next l epoch t = some (some (delivery ((s.attempt s.epoch p).heap p) true),
        s.attempt s.epoch p, t)) ∨
    (Ready l epoch s ∧ 0 < s.epoch ∧ ∃ p id rest, w.replay = [] ∧ w.fresh = p :: rest ∧
      s.select epoch = some p ∧ s.inflight[id]? = none ∧ id ≠ 0 ∧
      s.next l epoch t = some (some (delivery (((s.assign p id).attempt s.epoch p).heap p) false),
        (s.assign p id).attempt s.epoch p, { t with inflightMessages := t.inflightMessages + 1 })) := by
  by_cases hready : Ready l epoch s
  case neg => exact .inl ⟨next_of_not_ready hready t, fun hr => absurd hr hready⟩
  obtain rfl := hready.current
  rw [next_of_ready hready, h.select_eq]
  by_cases h0 : s.epoch = 0
  · rw [if_pos h0]
    exact .inl ⟨rfl, fun _ hpos => by rw [h0] at hpos; exact absurd hpos (by decide)⟩
  have hpos : 0 < s.epoch := UInt64.pos_iff_ne_zero.mpr h0
  rw [if_neg h0]
  cases hr : w.replay with
  | cons x rest =>
    obtain ⟨p, id⟩ := x
    obtain ⟨hid, hne, -⟩ := h.replay (p, id) (by simp [hr])
    have hw : w.waiting.head? = some p := by simp [Window.waiting, hr]
    rw [hw]
    dsimp only
    rw [if_pos (by rw [hid]; exact hne)]
    exact .inr (.inl ⟨hready, hpos, p, id, rest, rfl, rfl, rfl⟩)
  | nil =>
    have hw : w.waiting = w.fresh := by simp [Window.waiting, hr]
    cases hf : w.fresh with
    | nil =>
      rw [hw, hf]
      exact .inl ⟨rfl, fun _ _ => rfl⟩
    | cons p rest =>
      rw [hw, hf, List.head?_cons]
      dsimp only
      rw [if_neg (by simp [(h.fresh p (by simp [hf])).1])]
      -- All identifiers in use are in the window, which is not full.
      have hsize : s.inflight.size < 65535 := by
        have h1 := h.size
        have h2 := h.active
        have h3 := hready.window
        simp only [Window.assigned, hr, List.append_nil] at h1
        omega
      obtain ⟨id, hid⟩ := freePacketID_isSome hsize s.nextPacketID
      obtain ⟨hfree, hne⟩ := freePacketID_spec hid
      rw [hid]
      exact .inr (.inr ⟨hready, hpos, p, id, rest, rfl, rfl, rfl, hfree, hne, rfl⟩)

theorem filter_eq_erase {L : List (Nat × UInt16)} {x : Nat × UInt16} (hn : L.Nodup)
    (hx : ∀ y ∈ L, y.2 = x.2 → y = x) : L.filter (·.2 ≠ x.2) = L.erase x := by
  rw [hn.erase_eq_filter]
  apply List.filter_congr
  intro y hy
  simp only [bne, beq_eq_decide, ← decide_not]
  apply decide_eq_decide.mpr
  exact ⟨fun h e => h (e ▸ rfl), fun h e => h (hx y hy e)⟩

theorem Refines.assigned_nodup (h : Refines l s w) : w.assigned.Nodup := by
  have hs := h.pairwise
  rw [w.pending_eq, List.pairwise_append] at hs
  exact List.Nodup.of_map Prod.fst (hs.1.imp Nat.ne_of_lt)

theorem Refines.map_fst_erase (h : Refines l s w) {x : Nat × UInt16} (hx : x ∈ w.assigned) :
    (w.assigned.erase x).map Prod.fst = (w.assigned.map Prod.fst).erase x.1 := by
  have hs := h.pairwise
  rw [w.pending_eq, List.pairwise_append] at hs
  have hn : (w.assigned.map Prod.fst).Nodup := hs.1.imp Nat.ne_of_lt
  rw [hn.erase_eq_filter, h.assigned_nodup.erase_eq_filter, List.filter_map]
  congr 1
  apply List.filter_congr
  intro y hy
  simp only [bne, beq_eq_decide, ← decide_not, Function.comp_apply]
  apply decide_eq_decide.mpr
  exact ⟨fun h e => h (List.inj_on_of_nodup_map hn hy hx e), fun h e => h (e ▸ rfl)⟩

/-- An acknowledgement takes the message with the identifier out of the window. -/
theorem Refines.ack (h : Refines l s w) (hd : s.deleted = false) (id : UInt16) (t : Snapshot) :
    Refines l (s.ack id t).1 (w.drop id) := by
  have hptr := h.toPointers.ack id t
  cases hp : s.inflight[id]? with
  | none =>
    have hno : ∀ x ∈ w.assigned, x.2 ≠ id := by
      rintro ⟨p, i⟩ hx rfl
      rw [(h.inflight_iff i p).mpr hx] at hp
      cases hp
    have hdrop : w.drop id = w := by
      have hs : w.sent.filter (·.2 ≠ id) = w.sent :=
        List.filter_eq_self.mpr fun x hx => by simpa using hno x (List.mem_append_left _ hx)
      have hr : w.replay.filter (·.2 ≠ id) = w.replay :=
        List.filter_eq_self.mpr fun x hx => by simpa using hno x (List.mem_append_right _ hx)
      rw [Window.drop, hs, hr]
    rw [ack_of_none (.inl hp), hdrop]
    exact h
  | some p =>
    have hx : (p, id) ∈ w.assigned := (h.inflight_iff id p).mp hp
    have huniq : ∀ y ∈ w.assigned, y.2 = id → y = (p, id) := by
      rintro ⟨q, i⟩ hy rfl
      have := (h.inflight_iff i q).mpr hy
      rw [hp] at this
      cases this
      rfl
    have hnodup := h.assigned_nodup
    have hsent : w.sent.filter (·.2 ≠ id) = w.sent.erase (p, id) :=
      filter_eq_erase (x := (p, id)) (List.nodup_append.mp hnodup).1 fun y hy =>
        huniq y (List.mem_append_left _ hy)
    have hassigned : (w.drop id).assigned = w.assigned.erase (p, id) := by
      rw [Window.assigned, Window.drop, ← List.filter_append]
      exact filter_eq_erase (x := (p, id)) hnodup huniq
    rw [ack_of_some hp hd] at hptr ⊢
    refine ⟨hptr, ?_, ?_, ?_, ?_, ?_, ?_, ?_⟩
    · have hfst : p ∈ w.assigned.map Prod.fst := List.mem_map_of_mem hx
      rw [Window.pending_eq, hassigned, h.map_fst_erase hx]
      change s.entries.erase p = _
      rw [h.pending, w.pending_eq, List.erase_append_left _ hfst]
      rfl
    · exact fun y hy => h.sent y (List.mem_of_mem_filter hy)
    · exact fun y hy => h.replay y (List.mem_of_mem_filter hy)
    · exact h.fresh
    · have h1 := Map.size_erase_some _ hp
      have h2 := h.size
      have h3 := List.length_erase_of_mem hx
      have h4 := List.length_pos_of_mem hx
      rw [hassigned]
      dsimp only
      omega
    · have hact := h.active
      rw [Window.drop, hsent]
      dsimp only
      by_cases hs : (p, id) ∈ w.sent
      · rw [if_pos (h.sent _ hs).2.2.1, List.length_erase_of_mem hs]
        have := List.length_pos_of_mem hs
        omega
      · have hr : (p, id) ∈ w.replay := (List.mem_append.mp hx).resolve_left hs
        rw [if_neg (UInt64.ne_of_lt (h.replay _ hr).2.2), List.erase_of_not_mem hs, hact]
    · rw [hassigned]
      have h1 := List.length_erase_le (a := (p, id)) (l := w.assigned)
      have h2 := h.window
      omega

end State

end OrbMQ
