import Mathlib

/-!
# Redelivery windows

An abstract queue with acknowledged delivery. Messages are numbered in the order of their admission.
A receiver comes and goes: each `begin` starts a new epoch, and everything delivered but not
acknowledged before is delivered again, ahead of what was never delivered.

The state is three lists (`Window`): delivered in this epoch, delivered in an earlier one, never
delivered. `Run h w` says that the labels `h` lead to `w`. Which identifier a message gets is left
open. What follows from the labels alone:

* `Run.facts`: what the three lists are. Pending are the admitted messages that were not
  acknowledged, and the first list is what was delivered in this epoch.
* `Run.laws`: in one epoch messages come at most once, in order, duplicates first; a message keeps
  its identifier, and it is a duplicate iff it came in an earlier epoch.
-/

namespace Redelivery

variable {α κ : Type}

/-- What happens to a queue of messages `α` with identifiers `κ`. -/
inductive Label (α κ : Type) where
  | arrive (a : α)
  | begin
  | deliver (m : Nat) (id : κ) (dup : Bool)
  | ack (id : κ)

/-- A delivery and its epoch. -/
structure Delivered (κ : Type) where
  epoch : Nat
  msg : Nat
  id : κ
  dup : Bool

/-- The messages admitted so far. -/
def admitted : List (Label α κ) → List α
  | [] => []
  | .arrive a :: h => a :: admitted h
  | _ :: h => admitted h

/-- The number of the current epoch: how many have begun. -/
def epoch : List (Label α κ) → Nat
  | [] => 0
  | .begin :: h => epoch h + 1
  | _ :: h => epoch h

/-- The deliveries, the first of them in epoch `e`. -/
def deliveriesFrom (e : Nat) : List (Label α κ) → List (Delivered κ)
  | [] => []
  | .begin :: h => deliveriesFrom (e + 1) h
  | .deliver m id dup :: h => ⟨e, m, id, dup⟩ :: deliveriesFrom e h
  | _ :: h => deliveriesFrom e h

def deliveries (h : List (Label α κ)) : List (Delivered κ) := deliveriesFrom 0 h

/-- The label acknowledges `id`. -/
def Label.isAck [DecidableEq κ] (id : κ) : Label α κ → Bool
  | ack i => i = id
  | _ => false

/-- Message `m` was delivered and the identifier that it had was acknowledged after that. -/
def acked [DecidableEq κ] (m : Nat) : List (Label α κ) → Bool
  | [] => false
  | .deliver m' id _ :: h => (m' = m && h.any (Label.isAck id)) || acked m h
  | _ :: h => acked m h

structure Window (κ : Type) where
  sent : List (Nat × κ) := []
  replay : List (Nat × κ) := []
  fresh : List Nat := []

namespace Window

/-- The messages with an identifier. -/
def assigned (w : Window κ) : List (Nat × κ) := w.sent ++ w.replay

/-- The messages still to be delivered in this epoch, in order. -/
def waiting (w : Window κ) : List Nat := w.replay.map Prod.fst ++ w.fresh

/-- All messages, in order. -/
def pending (w : Window κ) : List Nat := w.sent.map Prod.fst ++ w.waiting

theorem pending_eq (w : Window κ) : w.pending = w.assigned.map Prod.fst ++ w.fresh := by
  simp [pending, waiting, assigned]

variable [DecidableEq κ]

/-- The queue after the identifier `id` is acknowledged. -/
def drop (id : κ) (w : Window κ) : Window κ :=
  ⟨w.sent.filter (·.2 ≠ id), w.replay.filter (·.2 ≠ id), w.fresh⟩

theorem mem_assigned_drop (id : κ) (w : Window κ) (x : Nat × κ) :
    x ∈ (w.drop id).assigned ↔ x ∈ w.assigned ∧ x.2 ≠ id := by
  simp only [assigned, drop, List.mem_append, List.mem_filter, decide_eq_true_eq]
  tauto

theorem drop_pending_sublist (id : κ) (w : Window κ) : (w.drop id).pending.Sublist w.pending :=
  ((List.filter_sublist).map _).append (((List.filter_sublist).map _).append (List.Sublist.refl _))

end Window

/-- The labels `h` lead from the empty queue to `w`. -/
inductive Run [DecidableEq κ] : List (Label α κ) → Window κ → Prop where
  | nil : Run [] {}
  | arrive {h : List (Label α κ)} {w : Window κ} (a : α) : Run h w →
      Run (h ++ [.arrive a]) { w with fresh := w.fresh ++ [(admitted h).length] }
  | begin {h : List (Label α κ)} {w : Window κ} : Run h w →
      Run (h ++ [.begin]) { w with sent := [], replay := w.sent ++ w.replay }
  | replay {h : List (Label α κ)} {w : Window κ} {m : Nat} {id : κ} {rest : List (Nat × κ)} :
      Run h w → w.replay = (m, id) :: rest →
      Run (h ++ [.deliver m id true]) { w with sent := w.sent ++ [(m, id)], replay := rest }
  | first {h : List (Label α κ)} {w : Window κ} {m : Nat} {rest : List Nat} (id : κ) :
      Run h w → w.replay = [] → w.fresh = m :: rest →
      Run (h ++ [.deliver m id false]) { w with sent := w.sent ++ [(m, id)], fresh := rest }
  | ack {h : List (Label α κ)} {w : Window κ} (id : κ) : Run h w → Run (h ++ [.ack id]) (w.drop id)

/-! ## One more label -/

section Append

variable (h : List (Label α κ))

@[simp] theorem admitted_append (h' : List (Label α κ)) : admitted (h ++ h') = admitted h ++ admitted h' := by
  induction h with
  | nil => rfl
  | cons x h ih => cases x <;> simp [admitted, ih]

@[simp] theorem epoch_append (h' : List (Label α κ)) : epoch (h ++ h') = epoch h + epoch h' := by
  induction h with
  | nil => simp [epoch]
  | cons x h ih => cases x <;> simp [epoch, ih]; omega

theorem deliveriesFrom_append (e : Nat) (h' : List (Label α κ)) :
    deliveriesFrom e (h ++ h') = deliveriesFrom e h ++ deliveriesFrom (e + epoch h) h' := by
  induction h generalizing e with
  | nil => rfl
  | cons x h ih =>
    cases x <;> simp [deliveriesFrom, epoch, ih]
    congr 1
    omega

@[simp] theorem deliveries_arrive (a : α) : deliveries (h ++ [.arrive a]) = deliveries h := by
  simp [deliveries, deliveriesFrom_append, deliveriesFrom]

@[simp] theorem deliveries_begin : deliveries (h ++ [.begin]) = deliveries h := by
  simp [deliveries, deliveriesFrom_append, deliveriesFrom]

@[simp] theorem deliveries_ack (id : κ) : deliveries (h ++ [.ack id]) = deliveries h := by
  simp [deliveries, deliveriesFrom_append, deliveriesFrom]

@[simp] theorem deliveries_deliver (m : Nat) (id : κ) (dup : Bool) :
    deliveries (h ++ [.deliver m id dup]) = deliveries h ++ [⟨epoch h, m, id, dup⟩] := by
  simp [deliveries, deliveriesFrom_append, deliveriesFrom]

variable [DecidableEq κ]

theorem acked_append_of_not_ack (m : Nat) {x : Label α κ} (hx : ∀ id, x.isAck id = false) :
    acked m (h ++ [x]) = acked m h := by
  induction h with
  | nil => cases x <;> simp [acked]
  | cons y h ih => cases y <;> simp [acked, ih, hx]

/-- An acknowledgement reaches the messages that were delivered under the identifier. -/
theorem acked_append_ack (m : Nat) (id : κ) :
    acked m (h ++ [.ack id]) = true ↔ acked m h = true ∨ ∃ d ∈ deliveries h, d.msg = m ∧ d.id = id := by
  have key : ∀ e, acked m (h ++ [.ack id]) = true ↔
      acked m h = true ∨ ∃ d ∈ deliveriesFrom e h, d.msg = m ∧ d.id = id := by
    induction h with
    | nil => simp [acked, deliveriesFrom]
    | cons y h ih =>
      intro e
      cases y with
      | arrive a => exact ih e
      | begin => exact ih (e + 1)
      | ack i => exact ih e
      | deliver m' i dup =>
        simp only [List.cons_append, acked, Bool.or_eq_true, Bool.and_eq_true, ih e, deliveriesFrom,
          List.mem_cons, exists_eq_or_imp, List.any_append, List.any_cons, List.any_nil,
          Label.isAck, decide_eq_true_eq, Bool.or_false]
        constructor
        · rintro (⟨hm, ha | hi⟩ | ha | hd)
          · exact .inl (.inl ⟨hm, ha⟩)
          · exact .inr (.inl ⟨hm, hi.symm⟩)
          · exact .inl (.inr ha)
          · exact .inr (.inr hd)
        · rintro ((⟨hm, ha⟩ | ha) | ⟨hm, hi⟩ | hd)
          · exact .inl ⟨hm, .inl ha⟩
          · exact .inr (.inl ha)
          · exact .inl ⟨hm, .inr hi.symm⟩
          · exact .inr (.inr hd)
  exact key 0

theorem delivered_of_acked {m : Nat} (ha : acked m h = true) : ∃ d ∈ deliveries h, d.msg = m := by
  have key : ∀ e, ∃ d ∈ deliveriesFrom e h, d.msg = m := by
    induction h with
    | nil => simp [acked] at ha
    | cons y h ih =>
      intro e
      cases y with
      | arrive a => exact ih ha e
      | begin => exact ih ha (e + 1)
      | ack i => exact ih ha e
      | deliver m' i dup =>
        simp only [acked, Bool.or_eq_true, Bool.and_eq_true, decide_eq_true_eq] at ha
        rcases ha with ⟨hm, -⟩ | ha
        · exact ⟨_, List.mem_cons_self, hm⟩
        · obtain ⟨d, hd, hm⟩ := ih ha e
          exact ⟨d, List.mem_cons_of_mem _ hd, hm⟩
  exact key 0

end Append

/-! ## Every run -/

variable [DecidableEq κ] {h : List (Label α κ)} {w : Window κ}

/-- What ties the three lists to the labels. -/
structure Facts (h : List (Label α κ)) (w : Window κ) : Prop where
  sorted : w.pending.Pairwise (· < ·)
  bound : ∀ m ∈ w.pending, m < (admitted h).length
  mem : ∀ m < (admitted h).length, m ∈ w.pending ↔ acked m h = false
  past : ∀ d ∈ deliveries h, d.epoch ≤ epoch h ∧ d.msg < (admitted h).length
  assigned : ∀ d ∈ deliveries h, d.msg ∈ w.pending → (d.msg, d.id) ∈ w.assigned
  sent : ∀ x ∈ w.sent, ∃ d ∈ deliveries h, d.epoch = epoch h ∧ d.msg = x.1 ∧ d.id = x.2
  replay : ∀ x ∈ w.replay, ∃ d ∈ deliveries h, d.epoch < epoch h ∧ d.msg = x.1 ∧ d.id = x.2
  before : ∀ d ∈ deliveries h, d.epoch = epoch h → ∀ m ∈ w.waiting, d.msg < m
  first : ∀ d ∈ deliveries h, d.epoch = epoch h → d.dup = false → w.replay = []

namespace Facts

theorem nil : Facts ([] : List (Label α κ)) {} := by
  constructor <;> simp [Window.pending, Window.waiting, deliveries, deliveriesFrom, admitted]

theorem not_mem_fresh (H : Facts h w) {x : Nat × κ} (hx : x ∈ w.assigned) : x.1 ∉ w.fresh := by
  intro hf
  have hs := H.sorted
  rw [w.pending_eq, List.pairwise_append] at hs
  exact Nat.lt_irrefl _ (hs.2.2 x.1 (List.mem_map_of_mem hx) x.1 hf)

theorem assigned_unique (H : Facts h w) {m : Nat} {i j : κ} (hi : (m, i) ∈ w.assigned)
    (hj : (m, j) ∈ w.assigned) : i = j := by
  have hs := H.sorted
  rw [w.pending_eq, List.pairwise_append] at hs
  have hn : (w.assigned.map Prod.fst).Nodup := hs.1.imp Nat.ne_of_lt
  exact congrArg Prod.snd (List.inj_on_of_nodup_map hn hi hj rfl)

/-- A message has an identifier iff it was delivered. -/
theorem mem_assigned (H : Facts h w) {m : Nat} (hm : m ∈ w.pending) (id : κ) :
    (m, id) ∈ w.assigned ↔ ∃ d ∈ deliveries h, d.msg = m ∧ d.id = id := by
  constructor
  · intro ha
    rcases List.mem_append.mp ha with ha | ha
    · obtain ⟨d, hd, -, h⟩ := H.sent _ ha
      exact ⟨d, hd, h⟩
    · obtain ⟨d, hd, -, h⟩ := H.replay _ ha
      exact ⟨d, hd, h⟩
  · rintro ⟨d, hd, rfl, rfl⟩
    exact H.assigned d hd hm

theorem mem_pending_drop (H : Facts h w) (id : κ) (m : Nat) :
    m ∈ (w.drop id).pending ↔ m ∈ w.pending ∧ (m, id) ∉ w.assigned := by
  constructor
  · intro hm
    refine ⟨(w.drop_pending_sublist id).subset hm, fun ha => ?_⟩
    rw [Window.pending_eq, List.mem_append] at hm
    rcases hm with hm | hm
    · obtain ⟨⟨m', i⟩, hx, rfl⟩ := List.mem_map.mp hm
      obtain ⟨hx, hne⟩ := (w.mem_assigned_drop id _).mp hx
      exact hne (H.assigned_unique hx ha)
    · exact H.not_mem_fresh ha hm
  · rintro ⟨hm, ha⟩
    rw [Window.pending_eq, List.mem_append] at hm ⊢
    rcases hm with hm | hm
    · obtain ⟨⟨m', i⟩, hx, rfl⟩ := List.mem_map.mp hm
      refine .inl (List.mem_map_of_mem ((w.mem_assigned_drop id (m', i)).mpr ⟨hx, ?_⟩))
      rintro rfl
      exact ha hx
    · exact .inr hm

theorem arrive (H : Facts h w) (a : α) :
    Facts (h ++ [.arrive a]) { w with fresh := w.fresh ++ [(admitted h).length] } := by
  have hp : ({ w with fresh := w.fresh ++ [(admitted h).length] } : Window κ).pending =
      w.pending ++ [(admitted h).length] := by
    simp [Window.pending, Window.waiting]
  have hlen : (admitted (h ++ [.arrive a])).length = (admitted h).length + 1 := by
    simp [admitted]
  have hepoch : epoch (h ++ [.arrive a]) = epoch h := by simp [epoch]
  have hnew : acked (admitted h).length h = false := by
    by_contra hc
    obtain ⟨d, hd, hm⟩ := delivered_of_acked h (by simpa using hc)
    have := (H.past d hd).2
    omega
  constructor
  case sorted =>
    rw [hp, List.pairwise_append]
    exact ⟨H.sorted, List.pairwise_singleton _ _, by simpa using H.bound⟩
  case bound =>
    intro m hm
    rw [hp, List.mem_append, List.mem_singleton] at hm
    rw [hlen]
    rcases hm with hm | rfl
    · have := H.bound m hm
      omega
    · omega
  case mem =>
    intro m hm
    rw [hp, List.mem_append, List.mem_singleton, acked_append_of_not_ack h m fun _ => rfl]
    by_cases hmn : m = (admitted h).length
    · subst hmn
      simp [hnew]
    · rw [hlen] at hm
      rw [← H.mem m (by omega)]
      simp [hmn]
  case past =>
    intro d hd
    rw [deliveries_arrive] at hd
    have := H.past d hd
    omega
  case assigned =>
    intro d hd hm
    rw [deliveries_arrive] at hd
    rw [hp, List.mem_append, List.mem_singleton] at hm
    rcases hm with hm | hm
    · exact H.assigned d hd hm
    · have := (H.past d hd).2
      omega
  case sent => simpa [hepoch] using H.sent
  case replay => simpa [hepoch] using H.replay
  case before =>
    intro d hd he m hm
    rw [deliveries_arrive] at hd
    rw [Window.waiting, ← List.append_assoc, List.mem_append, List.mem_singleton] at hm
    rcases hm with hm | rfl
    · exact H.before d hd (by omega) m hm
    · exact (H.past d hd).2
  case first => simpa [hepoch] using H.first

theorem begin (H : Facts h w) :
    Facts (h ++ [.begin]) { w with sent := [], replay := w.sent ++ w.replay } := by
  have hp : ({ w with sent := [], replay := w.sent ++ w.replay } : Window κ).pending = w.pending := by
    simp [Window.pending, Window.waiting]
  have hadm : admitted (h ++ [.begin]) = admitted h := by simp [admitted]
  have hepoch : epoch (h ++ [.begin]) = epoch h + 1 := by simp [epoch]
  -- No delivery is in the new epoch yet.
  have hold : ∀ d ∈ deliveries h, d.epoch ≠ epoch h + 1 := fun d hd => by
    have := (H.past d hd).1
    omega
  constructor
  case sorted => rw [hp]; exact H.sorted
  case bound => rw [hp, hadm]; exact H.bound
  case mem =>
    rw [hp, hadm]
    intro m hm
    rw [acked_append_of_not_ack h m fun _ => rfl]
    exact H.mem m hm
  case past =>
    rw [deliveries_begin, hadm, hepoch]
    intro d hd
    have := H.past d hd
    omega
  case assigned =>
    rw [deliveries_begin, hp]
    exact H.assigned
  case sent => simp
  case replay =>
    rw [deliveries_begin, hepoch]
    intro x hx
    rcases List.mem_append.mp hx with hx | hx
    · obtain ⟨d, hd, he, hm⟩ := H.sent x hx
      exact ⟨d, hd, by omega, hm⟩
    · obtain ⟨d, hd, he, hm⟩ := H.replay x hx
      exact ⟨d, hd, by omega, hm⟩
  case before =>
    rw [deliveries_begin, hepoch]
    exact fun d hd he => absurd he (hold d hd)
  case first =>
    rw [deliveries_begin, hepoch]
    exact fun d hd he => absurd he (hold d hd)

/-- A delivery: the first waiting message moves to the end of the first list. -/
theorem deliver (H : Facts h w) {m : Nat} {id : κ} {dup : Bool} {w' : Window κ}
    (hsent : w'.sent = w.sent ++ [(m, id)]) (hwait : w.waiting = m :: w'.waiting)
    (hreplay : ∀ x ∈ w'.replay, x ∈ w.replay)
    (hdup : dup = false → w'.replay = []) (hmore : w.replay = [] → w'.replay = [])
    (hassigned : ∀ x ∈ w.assigned, x ∈ w'.assigned) :
    Facts (h ++ [.deliver m id dup]) w' := by
  have hp : w'.pending = w.pending := by
    simp [Window.pending, hsent, hwait]
  have hadm : admitted (h ++ [.deliver m id dup]) = admitted h := by simp [admitted]
  have hepoch : epoch (h ++ [.deliver m id dup]) = epoch h := by simp [epoch]
  have hm : m ∈ w.waiting := by rw [hwait]; exact List.mem_cons_self
  have hmp : m ∈ w.pending := List.mem_append_right _ hm
  have hsorted : ∀ m' ∈ w'.waiting, m < m' := by
    have hs := H.sorted
    rw [Window.pending, List.pairwise_append, hwait] at hs
    exact (List.pairwise_cons.mp hs.2.1).1
  constructor
  case sorted => rw [hp]; exact H.sorted
  case bound => rw [hp, hadm]; exact H.bound
  case mem =>
    rw [hp, hadm]
    intro m' hm'
    rw [acked_append_of_not_ack h m' fun _ => rfl]
    exact H.mem m' hm'
  case past =>
    rw [deliveries_deliver, hadm, hepoch]
    intro d hd
    rcases List.mem_append.mp hd with hd | hd
    · exact H.past d hd
    · obtain rfl := List.mem_singleton.mp hd
      exact ⟨Nat.le_refl _, H.bound m hmp⟩
  case assigned =>
    rw [deliveries_deliver, hp]
    intro d hd hdm
    rcases List.mem_append.mp hd with hd | hd
    · exact hassigned _ (H.assigned d hd hdm)
    · obtain rfl := List.mem_singleton.mp hd
      simp [Window.assigned, hsent]
  case sent =>
    rw [deliveries_deliver, hepoch, hsent]
    intro x hx
    rcases List.mem_append.mp hx with hx | hx
    · obtain ⟨d, hd, he⟩ := H.sent x hx
      exact ⟨d, List.mem_append_left _ hd, he⟩
    · obtain rfl := List.mem_singleton.mp hx
      exact ⟨_, List.mem_append_right _ (List.mem_singleton_self _), rfl, rfl, rfl⟩
  case replay =>
    rw [deliveries_deliver, hepoch]
    intro x hx
    obtain ⟨d, hd, he⟩ := H.replay x (hreplay x hx)
    exact ⟨d, List.mem_append_left _ hd, he⟩
  case before =>
    rw [deliveries_deliver, hepoch]
    intro d hd he m' hm'
    rcases List.mem_append.mp hd with hd | hd
    · exact H.before d hd he m' (by rw [hwait]; exact List.mem_cons_of_mem _ hm')
    · obtain rfl := List.mem_singleton.mp hd
      exact hsorted m' hm'
  case first =>
    rw [deliveries_deliver, hepoch]
    intro d hd he hdd
    rcases List.mem_append.mp hd with hd | hd
    · exact hmore (H.first d hd he hdd)
    · obtain rfl := List.mem_singleton.mp hd
      exact hdup hdd

theorem ack (H : Facts h w) (id : κ) : Facts (h ++ [.ack id]) (w.drop id) := by
  have hadm : admitted (h ++ [.ack id]) = admitted h := by simp [admitted]
  have hepoch : epoch (h ++ [.ack id]) = epoch h := by simp [epoch]
  constructor
  case sorted => exact H.sorted.sublist (w.drop_pending_sublist id)
  case bound =>
    rw [hadm]
    exact fun m hm => H.bound m ((H.mem_pending_drop id m).mp hm).1
  case mem =>
    rw [hadm]
    intro m hm
    rw [H.mem_pending_drop, ← Bool.not_eq_true, acked_append_ack, not_or, Bool.not_eq_true, ← H.mem m hm]
    refine and_congr_right fun hp => not_congr (H.mem_assigned hp id)
  case past => rw [deliveries_ack, hadm, hepoch]; exact H.past
  case assigned =>
    rw [deliveries_ack]
    intro d hd hm
    obtain ⟨hm, hid⟩ := (H.mem_pending_drop id _).mp hm
    have ha := H.assigned d hd hm
    refine (w.mem_assigned_drop id _).mpr ⟨ha, ?_⟩
    rintro rfl
    exact hid ha
  case sent =>
    rw [deliveries_ack, hepoch]
    exact fun x hx => H.sent x (List.mem_of_mem_filter hx)
  case replay =>
    rw [deliveries_ack, hepoch]
    exact fun x hx => H.replay x (List.mem_of_mem_filter hx)
  case before =>
    rw [deliveries_ack, hepoch]
    intro d hd he m hm
    refine H.before d hd he m ?_
    rcases List.mem_append.mp hm with hm | hm
    · exact List.mem_append_left _ (((List.filter_sublist).map _).subset hm)
    · exact List.mem_append_right _ hm
  case first =>
    rw [deliveries_ack, hepoch]
    intro d hd he hdd
    simp [Window.drop, H.first d hd he hdd]

end Facts

theorem Run.facts (H : Run h w) : Facts h w := by
  induction H with
  | nil => exact .nil
  | arrive a _ ih => exact ih.arrive a
  | begin _ ih => exact ih.begin
  | @replay h w m id rest _ hr ih =>
    refine ih.deliver rfl ?_ ?_ nofun ?_ ?_
    · simp [Window.waiting, hr]
    · intro x hx
      rw [hr]
      exact List.mem_cons_of_mem _ hx
    · intro hn
      rw [hr] at hn
      cases hn
    · intro x hx
      simpa [Window.assigned, hr] using hx
  | first id _ hr hf ih =>
    refine ih.deliver rfl ?_ (fun _ hx => hx) (fun _ => hr) (fun hr => hr) ?_
    · simp [Window.waiting, hr, hf]
    · intro x hx
      simp only [Window.assigned, List.mem_append] at hx ⊢
      tauto
  | ack id _ ih => exact ih.ack id

/-! ## The laws of the deliveries -/

/-- What holds of the deliveries of a run, oldest first. -/
structure Laws (L : List (Delivered κ)) : Prop where
  /-- In one epoch every message comes at most once, in the order of admission. -/
  ordered : L.Pairwise fun a b => a.epoch = b.epoch → a.msg < b.msg
  /-- A message keeps its identifier. -/
  sameID : L.Pairwise fun a b => a.msg = b.msg → a.id = b.id
  /-- A delivery is a duplicate iff the message came in an earlier epoch. -/
  dup_iff : ∀ L₁ d L₂, L = L₁ ++ d :: L₂ →
    (d.dup = true ↔ ∃ a ∈ L₁, a.msg = d.msg ∧ a.epoch < d.epoch)
  /-- In one epoch the duplicates come first. -/
  dup_first : L.Pairwise fun a b => a.epoch = b.epoch → b.dup = true → a.dup = true

omit [DecidableEq κ] in
theorem Laws.nil : Laws ([] : List (Delivered κ)) :=
  ⟨.nil, .nil, by simp, .nil⟩

omit [DecidableEq κ] in
theorem Laws.snoc {L : List (Delivered κ)} (H : Laws L) {d : Delivered κ}
    (ordered : ∀ a ∈ L, a.epoch = d.epoch → a.msg < d.msg)
    (sameID : ∀ a ∈ L, a.msg = d.msg → a.id = d.id)
    (dup_iff : d.dup = true ↔ ∃ a ∈ L, a.msg = d.msg ∧ a.epoch < d.epoch)
    (dup_first : ∀ a ∈ L, a.epoch = d.epoch → d.dup = true → a.dup = true) : Laws (L ++ [d]) := by
  have snoc : ∀ {R : Delivered κ → Delivered κ → Prop}, L.Pairwise R → (∀ a ∈ L, R a d) →
      (L ++ [d]).Pairwise R := by
    intro R hL hd
    exact List.pairwise_append.mpr ⟨hL, List.pairwise_singleton _ _, by simpa using hd⟩
  refine ⟨snoc H.ordered ordered, snoc H.sameID sameID, ?_, snoc H.dup_first dup_first⟩
  intro L₁ d' L₂ he
  rcases List.eq_nil_or_concat L₂ with rfl | ⟨L₂, x, rfl⟩
  · obtain ⟨rfl, hd⟩ := List.append_inj' he rfl
    simp only [List.cons.injEq, and_true] at hd
    rw [← hd]
    exact dup_iff
  · rw [List.concat_eq_append, ← List.cons_append, ← List.append_assoc] at he
    exact H.dup_iff L₁ d' L₂ (List.append_inj' he rfl).1

theorem Run.laws (H : Run h w) : Laws (deliveries h) := by
  induction H with
  | nil => exact .nil
  | arrive a _ ih => rw [deliveries_arrive]; exact ih
  | begin _ ih => rw [deliveries_begin]; exact ih
  | ack id _ ih => rw [deliveries_ack]; exact ih
  | @replay h w m id rest H hr ih =>
    have F := H.facts
    have hm : m ∈ w.waiting := by simp [Window.waiting, hr]
    have hx : (m, id) ∈ w.replay := by simp [hr]
    rw [deliveries_deliver]
    refine ih.snoc (fun a ha he => F.before a ha he m hm) ?_ ?_ ?_
    · intro a ha he
      have hp : a.msg ∈ w.pending := he ▸ List.mem_append_right _ hm
      have hassigned := F.assigned a ha hp
      rw [he] at hassigned
      exact F.assigned_unique hassigned (List.mem_append_right _ hx)
    · obtain ⟨d, hd, he, hm, -⟩ := F.replay _ hx
      exact iff_of_true rfl ⟨d, hd, hm, he⟩
    · intro a ha he _
      by_contra hdup
      have := F.first a ha he (by simpa using hdup)
      rw [this] at hx
      simp at hx
  | @first h w m rest id H hr hf ih =>
    have F := H.facts
    have hm : m ∈ w.waiting := by simp [Window.waiting, hf]
    -- A message that was never delivered has no identifier.
    have hnew : ∀ a ∈ deliveries h, a.msg ≠ m := by
      intro a ha he
      have hassigned := F.assigned a ha (he ▸ List.mem_append_right _ hm)
      exact F.not_mem_fresh hassigned (by rw [hf, he]; exact List.mem_cons_self)
    rw [deliveries_deliver]
    refine ih.snoc (fun a ha he => F.before a ha he m hm) (fun a ha he => absurd he (hnew a ha)) ?_ nofun
    refine iff_of_false nofun ?_
    rintro ⟨a, ha, he, -⟩
    exact hnew a ha he

end Redelivery
