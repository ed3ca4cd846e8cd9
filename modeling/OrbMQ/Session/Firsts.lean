import OrbMQ.Session.Turnover

/-!
# First attempts are in the order of the queue

`Next` takes the first entry that was not returned in the epoch, so a replay may come at any time. But an entry
without an identifier was never returned, whatever the epoch: those that got one earlier are before it in the
queue (`State.Firsts`). Hence the entries of a session are transmitted for the first time in the order in which they
were admitted (`State.Firsts.next`).
-/

namespace OrbMQ

open Go

namespace State

variable {s s' : State} {F : List Nat}

/-- The entries that have had their first attempt, in this order: it is that of the queue, and the others come
after them. -/
structure Firsts (F : List Nat) (s : State) : Prop where
  sorted : F.Pairwise (· < ·)
  bound : ∀ q ∈ F, q < s.allocated
  unsent : ∀ q ∈ s.entries, (s.heap q).packetID = 0 → (s.heap q).lastEpoch = 0 ∧ ∀ q' ∈ F, q' < q

/-- `Next` takes the first entry that it can. -/
theorem select_le {epoch : UInt64} {p : Nat} (hs : s.entries.Pairwise (· < ·)) (h : s.select epoch = some p)
    {q : Nat} (hq : q ∈ s.entries) (hne : (s.heap q).lastEpoch ≠ epoch) : p ≤ q := by
  obtain ⟨-, before, after, hsplit, hbefore⟩ := List.find?_eq_some_iff_append.mp h
  rw [hsplit] at hs hq
  rcases List.mem_append.mp hq with hq | hq
  · have := hbefore q hq
    simp [hne] at this
  · rcases List.mem_cons.mp hq with rfl | hq
    · exact Nat.le_refl _
    · have hafter := (List.pairwise_append.mp hs).2.1
      exact Nat.le_of_lt ((List.pairwise_cons.mp hafter).1 q hq)

namespace Firsts

theorem of_heap (h : s.Firsts F) (hh : s'.heap = s.heap) (ha : s'.allocated = s.allocated)
    (he : ∀ q ∈ s'.entries, q ∈ s.entries) : s'.Firsts F :=
  ⟨h.sorted, ha ▸ h.bound, fun q hq => hh ▸ h.unsent q (he q hq)⟩

theorem stays (h : s.Firsts F) (hk : s.Stays s') : s'.Firsts F := by
  refine h.of_heap hk.heap hk.allocated fun q hq => ?_
  obtain e | e := hk.entries <;> rw [e] at hq
  · exact hq
  · cases hq

/-- A new entry comes after all others. -/
theorem append (h : s.Firsts F) (hp : s.Pointers) (now : Time) (data : Bytes) (off : Int) :
    (s.append now data off).Firsts F := by
  refine ⟨h.sorted, fun q hq => Nat.lt_succ_of_lt (h.bound q hq), fun q hq => ?_⟩
  simp only [State.append, State.notifyLocked, List.mem_append, List.mem_singleton] at hq ⊢
  rcases hq with hq | rfl
  · rw [Function.update_of_ne (Nat.ne_of_lt (hp.bound q hq))]
    exact h.unsent q hq
  · rw [Function.update_self]
    exact fun _ => ⟨rfl, h.bound⟩

/-- A replay. -/
theorem attempt (h : s.Firsts F) (epoch : UInt64) {p : Nat} (hp : (s.heap p).packetID ≠ 0) :
    (s.attempt epoch p).Firsts F := by
  refine ⟨h.sorted, h.bound, fun q hq h0 => ?_⟩
  rw [heap_attempt] at h0 ⊢
  split at h0
  · exact (hp h0).elim
  · rename_i hne
    rw [if_neg hne]
    exact h.unsent q hq h0

/-- A first attempt. -/
theorem assign (h : s.Firsts F) (hptr : s.Pointers) {epoch : UInt64} {p : Nat} (hsel : s.select epoch = some p)
    (h0 : (s.heap p).packetID = 0) {id : UInt16} (hid : id ≠ 0) :
    ((s.assign p id).attempt epoch p).Firsts (F ++ [p]) := by
  obtain ⟨hmem, hepoch⟩ := select_mem hsel
  obtain ⟨hlast, hlt⟩ := h.unsent p hmem h0
  refine ⟨?_, fun q hq => ?_, fun q hq hq0 => ?_⟩
  · rw [List.pairwise_append]
    refine ⟨h.sorted, List.pairwise_singleton _ _, fun q hq p' hp' => ?_⟩
    rw [List.mem_singleton.mp hp']
    exact hlt q hq
  · rcases List.mem_append.mp hq with hq | hq
    · exact h.bound q hq
    · rw [List.mem_singleton.mp hq]
      exact hptr.bound p hmem
  · have hne : q ≠ p := by
      rintro rfl
      rw [heap_attempt, if_pos rfl, heap_assign, if_pos rfl] at hq0
      exact hid hq0
    rw [heap_attempt, if_neg hne, heap_assign, if_neg hne] at hq0 ⊢
    obtain ⟨hqlast, hqlt⟩ := h.unsent q hq hq0
    refine ⟨hqlast, fun q' hq' => ?_⟩
    rcases List.mem_append.mp hq' with hq' | hq'
    · exact hqlt q' hq'
    · -- Both could be taken, and `Next` takes the first one.
      rw [List.mem_singleton.mp hq']
      have hle := select_le hptr.sorted hsel hq (by rwa [hqlast, ← hlast])
      omega

/-- What `Next` returns is a replay, or the first attempt of an entry that comes after all earlier ones. -/
theorem next (h : s.Firsts F) (hptr : s.Pointers) {l : Limits} {epoch : UInt64} {t t' : Snapshot}
    {d : Option Delivery} (hn : s.next l epoch t = some (d, s', t')) :
    (d = none ∧ s'.Firsts F) ∨ ∃ p m, s.select epoch = some p ∧ m.data = (s.heap p).data ∧
      m.packetIDOffset = (s.heap p).packetIDOffset ∧ m.packetID ≠ 0 ∧
      ((d = some (delivery m true) ∧ s'.Firsts F) ∨ (d = some (delivery m false) ∧ s'.Firsts (F ++ [p]))) := by
  obtain ⟨rfl, rfl, -⟩ | ⟨-, p, hsel, ⟨hp, rfl, rfl, -⟩ | ⟨hp, id, hid, rfl, rfl, -⟩⟩ := next_cases hn
  · exact .inl ⟨rfl, h⟩
  · refine .inr ⟨p, _, hsel, ?_, ?_, ?_, .inl ⟨rfl, h.attempt epoch hp⟩⟩ <;> rw [heap_attempt, if_pos rfl]
    exact hp
  · have hne := (freePacketID_spec hid).2
    refine .inr ⟨p, _, hsel, ?_, ?_, ?_, .inr ⟨rfl, h.assign hptr hsel hp hne⟩⟩ <;>
      rw [heap_attempt, if_pos rfl, heap_assign, if_pos rfl]
    exact hne

end Firsts

end State

/-- Every call but `Next` keeps the order of first attempts. -/
theorem StateOp.firsts {l : Limits} {s s' : State} {t t' : Snapshot} {op : StateOp} {F : List Nat}
    (h : s.Firsts F) (hptr : s.Pointers) (hop : op.run l s t = some (s', t')) (hne : ∀ epoch, op ≠ .next epoch) :
    s'.Firsts F := by
  cases run_moves hop with
  | unadmitted | unknown => exact h
  | append now data off => exact h.append hptr now data off
  | idle | attempt | assign => exact (hne _ rfl).elim
  | ack => exact h.of_heap rfl rfl fun _ hq => List.mem_of_mem_erase hq
  | _ => exact h.of_heap rfl rfl fun _ hq => hq

end OrbMQ
