import OrbMQ.Session.Firsts
import OrbMQ.Session.Wakeup

/-!
# Between two calls of `Next`

The delivery consumer of a session calls `Next` and receives from `Changed()`; all other calls are of others
(`StoreOp.leaves`). Others add messages to the end of the queue and take acknowledged ones out of it, but they do not
touch the messages that stay (`State.Passes`).

* `State.unsent epoch p`: how many messages are to be sent before `p`, with `p` itself. Others cannot make it more
  (`State.Passes.unsent_le`), and `Next` makes it less (`State.next_unsent`).
* `StoreOp.kept`: a message leaves the queue with its session, or when its identifier is acknowledged.
-/

namespace OrbMQ

open Go

/-! ## The calls of others -/

/-- Not a call by which the consumer of the session `r` works. -/
def StoreOp.leaves (r : Nat) : StoreOp → Bool
  | .on r' (.next _) | .on r' .beginDelivery | .on r' .changed => r' ≠ r
  | _ => true

theorem StoreOp.receives_of_leaves {r : Nat} {op : StoreOp} (h : op.leaves r = true) : op.receives r = false := by
  unfold StoreOp.leaves at h
  unfold StoreOp.receives
  split at h <;> simp_all

/-- The queue of `s'` is that of `s` without some messages, and with new ones that were not sent yet. -/
structure State.Passes (s s' : State) : Prop where
  epoch : s'.epoch = s.epoch
  allocated : s.allocated ≤ s'.allocated
  heap : ∀ p < s.allocated, s'.heap p = s.heap p
  entries : ∃ added, s'.entries.Sublist (s.entries ++ added) ∧
    ∀ p ∈ added, s.allocated ≤ p ∧ p < s'.allocated ∧ (s'.heap p).packetID = 0

namespace State.Passes

variable {s s' s'' : State}

theorem of_entries (hepoch : s'.epoch = s.epoch) (halloc : s'.allocated = s.allocated) (hheap : s'.heap = s.heap)
    (hsub : s'.entries.Sublist s.entries) : s.Passes s' :=
  ⟨hepoch, halloc.ge, fun _ _ => by rw [hheap], [], by simpa using hsub, by simp⟩

theorem refl (s : State) : s.Passes s := of_entries rfl rfl rfl (List.Sublist.refl _)

theorem trans (h : s.Passes s') (h' : s'.Passes s'') : s.Passes s'' := by
  obtain ⟨added, hsub, hadded⟩ := h.entries
  obtain ⟨added', hsub', hadded'⟩ := h'.entries
  refine ⟨h'.epoch.trans h.epoch, h.allocated.trans h'.allocated, fun p hp => ?_, added ++ added', ?_, fun p hp => ?_⟩
  · rw [h'.heap p (hp.trans_le h.allocated), h.heap p hp]
  · rw [← List.append_assoc]
    exact hsub'.trans (hsub.append_right added')
  · obtain hp | hp := List.mem_append.mp hp
    · obtain ⟨hge, hlt, hid⟩ := hadded p hp
      exact ⟨hge, hlt.trans_le h'.allocated, by rw [h'.heap p hlt, hid]⟩
    · obtain ⟨hge, hlt, hid⟩ := hadded' p hp
      exact ⟨h.allocated.trans hge, hlt, hid⟩

theorem append (s : State) (now : Time) (data : Bytes) (off : Int) : s.Passes (s.append now data off) := by
  refine ⟨rfl, Nat.le_succ _, fun p hp => ?_, [s.allocated], List.Sublist.refl _, fun p hp => ?_⟩
  · simp only [State.append, State.notifyLocked, Function.update_apply, if_neg (Nat.ne_of_lt hp)]
  · obtain rfl := List.mem_singleton.mp hp
    exact ⟨Nat.le_refl _, Nat.lt_succ_self _, by simp [State.append]⟩

theorem stays (h : s.Stays s') : s.Passes s' := by
  refine of_entries h.epoch h.allocated h.heap ?_
  obtain e | e := h.entries
  · rw [e]
  · rw [e]
    exact List.nil_sublist _

/-- A message that was sent is an old one. -/
theorem mem (h : s.Passes s') (hb : ∀ p ∈ s.entries, p < s.allocated) {p : Nat} (hp : p ∈ s'.entries)
    (hid : (s'.heap p).packetID ≠ 0) : p ∈ s.entries ∧ s'.heap p = s.heap p := by
  obtain ⟨added, hsub, hadded⟩ := h.entries
  obtain hp | hp := List.mem_append.mp (hsub.subset hp)
  · exact ⟨hp, h.heap p (hb p hp)⟩
  · exact absurd (hadded p hp).2.2 hid

end State.Passes

theorem StateOp.passes {l : Limits} {s s' : State} {t t' : Snapshot} {op : StateOp} {r : Nat}
    (hl : (StoreOp.on r op).leaves r = true) (hop : op.run l s t = some (s', t')) : s.Passes s' := by
  cases run_moves hop with
  | append now data off => exact .append s now data off
  | beginDelivery | idle | attempt | assign | changed => simp [StoreOp.leaves] at hl
  | @ack id p => exact .of_entries rfl rfl rfl List.erase_sublist
  | _ => exact .of_entries rfl rfl rfl (List.Sublist.refl _)

theorem StoreOp.passes {st st' : Store} {op : StoreOp} {r : Nat} (hr : r < st.allocated) (hl : op.leaves r = true)
    (hop : op.step st = some st') : (st.states r).Passes (st'.states r) := by
  cases step_moves hop with
  | getOrCreateOwned now id owner => exact .stays ((Store.Turnover.getOrCreateOwned st now id owner).kept r hr)
  | delete id => exact .stays ((Store.Turnover.deleteLocked st id).kept r hr)
  | @expire now order => exact .stays ((Store.Turnover.expire st now order).kept r hr)
  | expireSession id now => exact .stays ((Store.Turnover.expireLocked st _ now).kept r hr)
  | @on r' op s t _ hrun =>
    dsimp only [Store.set]
    rw [Function.update_apply]
    split
    · rename_i e
      subst e
      exact op.passes hl hrun
    · exact .refl _

/-- Some calls of others. -/
theorem Store.passes {st st' : Store} {ops : List StoreOp} {r : Nat} (hr : r < st.allocated)
    (hl : ∀ op ∈ ops, op.leaves r = true) (hrun : Sys.run StoreOp.step st ops = some st') :
    (st.states r).Passes (st'.states r) ∧ ∀ epoch, (st.states r).Signalled st.limits epoch →
      (st'.states r).Signalled st'.limits epoch := by
  induction ops generalizing st with
  | nil =>
    cases hrun
    exact ⟨.refl _, fun _ h => h⟩
  | cons op ops ih =>
    obtain ⟨st₁, hop, hrun⟩ := Option.bind_eq_some_iff.mp hrun
    have hleaves := hl op List.mem_cons_self
    obtain ⟨hpass, hsig⟩ := ih (hr.trans_le (StoreOp.keeps hop).allocated)
      (fun op' hop' => hl op' (List.mem_cons_of_mem _ hop')) hrun
    refine ⟨(StoreOp.passes hr hleaves hop).trans hpass, fun epoch h => hsig epoch ?_⟩
    exact StoreOp.signalled hr h hop (StoreOp.receives_of_leaves hleaves)

/-! ## How long a message waits -/

namespace State

/-- The messages up to `p` that were not sent in this epoch. -/
def unsent (epoch : UInt64) (p : Nat) (s : State) : Nat :=
  s.entries.countP fun q => q ≤ p ∧ (s.heap q).lastEpoch ≠ epoch

variable {s s' : State} {epoch : UInt64} {p q : Nat}

theorem Passes.unsent_le (h : s.Passes s') (hb : ∀ p ∈ s.entries, p < s.allocated) (hp : p < s.allocated)
    (epoch : UInt64) : s'.unsent epoch p ≤ s.unsent epoch p := by
  obtain ⟨added, hsub, hadded⟩ := h.entries
  have hnew : added.countP (fun q => q ≤ p ∧ (s'.heap q).lastEpoch ≠ epoch) = 0 := by
    refine List.countP_eq_zero.mpr fun q hq => ?_
    have hge := (hadded q hq).1
    simp only [decide_eq_true_eq, not_and]
    omega
  have hold : s.entries.countP (fun q => q ≤ p ∧ (s'.heap q).lastEpoch ≠ epoch) = s.unsent epoch p :=
    List.countP_congr fun q hq => by rw [h.heap q (hb q hq)]
  calc s'.unsent epoch p
      ≤ (s.entries ++ added).countP (fun q => q ≤ p ∧ (s'.heap q).lastEpoch ≠ epoch) := hsub.countP_le
    _ = s.unsent epoch p := by rw [List.countP_append, hnew, hold, Nat.add_zero]

theorem select_of_unsent (hp : p ∈ s.entries) (hunsent : (s.heap p).lastEpoch ≠ epoch) : s.select epoch ≠ none := by
  intro hnone
  have hsent := List.find?_eq_none.mp hnone p hp
  simp [hunsent] at hsent

/-- A message without an identifier was never sent. -/
theorem Refines.lastEpoch_eq_zero {l : Limits} {w : Redelivery.Window UInt16} (h : Refines l s w) (hp : p ∈ s.entries)
    (hid : (s.heap p).packetID = 0) : (s.heap p).lastEpoch = 0 := by
  rw [h.pending, w.pending_eq] at hp
  obtain hp | hp := List.mem_append.mp hp
  · obtain ⟨x, hx, rfl⟩ := List.mem_map.mp hp
    obtain ⟨he, hne⟩ := h.mem_assigned hx
    exact absurd (he.symm.trans hid) hne
  · exact (h.fresh p hp).2

/-- The message `q` is marked as sent, and nothing else of what counts changes. -/
theorem unsent_lt (hentries : s'.entries = s.entries) (hq : q ∈ s.entries) (hle : q ≤ p)
    (hunsent : (s.heap q).lastEpoch ≠ epoch) (hsent : (s'.heap q).lastEpoch = epoch)
    (hothers : ∀ q' ≠ q, (s'.heap q').lastEpoch = (s.heap q').lastEpoch) : s'.unsent epoch p < s.unsent epoch p := by
  obtain ⟨front, back, he⟩ := List.append_of_mem hq
  have hmono : ∀ l : List Nat, l.countP (fun q => q ≤ p ∧ (s'.heap q).lastEpoch ≠ epoch) ≤
      l.countP (fun q => q ≤ p ∧ (s.heap q).lastEpoch ≠ epoch) := by
    refine fun l => List.countP_mono_left fun q' _ h => ?_
    simp only [decide_eq_true_eq] at h ⊢
    by_cases e : q' = q
    · exact absurd (e ▸ hsent) h.2
    · rwa [← hothers q' e]
  have h1 := hmono front
  have h2 := hmono back
  have hafter : decide (q ≤ p ∧ (s'.heap q).lastEpoch ≠ epoch) = false := by simp [hsent]
  have hbefore : decide (q ≤ p ∧ (s.heap q).lastEpoch ≠ epoch) = true := by simp [hle, hunsent]
  rw [unsent, unsent, hentries, he, List.countP_append, List.countP_append, List.countP_cons, List.countP_cons, hafter,
    hbefore, if_pos rfl, if_neg Bool.false_ne_true]
  omega

/-- A call of `Next` that returns a message. -/
theorem next_unsent {l : Limits} {t t' : Snapshot} {d : Delivery} (hs : s.entries.Pairwise (· < ·))
    (hn : s.next l epoch t = some (some d, s', t')) (hp : p ∈ s.entries) (hunsent : (s.heap p).lastEpoch ≠ epoch) :
    s'.unsent epoch p < s.unsent epoch p := by
  obtain ⟨hd, -⟩ | ⟨-, q, hq, ⟨-, -, rfl, -⟩ | ⟨-, id, -, -, rfl, -⟩⟩ := next_cases hn
  · cases hd
  · obtain ⟨hmem, hne⟩ := select_mem hq
    refine unsent_lt rfl hmem (select_le hs hq hp hunsent) hne ?_ fun q' hne => ?_
    · rw [heap_attempt, if_pos rfl]
    · rw [heap_attempt, if_neg hne]
  · obtain ⟨hmem, hne⟩ := select_mem hq
    refine unsent_lt rfl hmem (select_le hs hq hp hunsent) hne ?_ fun q' hne => ?_
    · rw [heap_attempt, if_pos rfl]
    · rw [heap_attempt, if_neg hne, heap_assign, if_neg hne]

end State

/-! ## How a message leaves the queue -/

theorem StateOp.kept {l : Limits} {s s' : State} {t t' : Snapshot} {op : StateOp} {p : Nat}
    (hop : op.run l s t = some (s', t')) (hp : p ∈ s.entries) :
    p ∈ s'.entries ∨ ∃ id, op = .ack id ∧ s.inflight[id]? = some p := by
  cases run_moves hop with
  | append => exact .inl (List.mem_append_left _ hp)
  | @ack id q hq =>
    by_cases e : p = q
    · exact .inr ⟨id, rfl, e ▸ hq⟩
    · exact .inl ((List.mem_erase_of_ne e).mpr hp)
  | _ => exact .inl hp

theorem StoreOp.kept {st st' : Store} {op : StoreOp} {r p : Nat} (hr : r < st.allocated)
    (hop : op.step st = some st') (hp : p ∈ (st.states r).entries) :
    p ∈ (st'.states r).entries ∨ (st'.states r).deleted = true ∨
      ∃ id, op = .on r (.ack id) ∧ (st.states r).inflight[id]? = some p := by
  have hremoves : Removes st st' → p ∈ (st'.states r).entries ∨ (st'.states r).deleted = true := by
    intro hrem
    cases hd : (st'.states r).deleted with
    | true => exact .inr rfl
    | false => exact .inl (hrem.live r hd ▸ hp)
  cases step_moves hop with
  | getOrCreateOwned now id owner =>
    refine .inl ?_
    unfold Store.getOrCreateOwned
    repeat' split
    · exact hp
    · exact hp
    · exact hp
    · dsimp only
      rw [Function.update_of_ne (Nat.ne_of_lt hr)]
      exact hp
  | delete id => exact (hremoves (removes_deleteLocked st id)).imp_right .inl
  | @expire now order => exact (hremoves (removes_expire st now order)).imp_right .inl
  | expireSession id now => exact (hremoves (removes_expireLocked st _ now)).imp_right .inl
  | @on r' op s t _ hrun =>
    dsimp only [Store.set]
    rw [Function.update_apply]
    split
    · rename_i e
      subst e
      obtain h | ⟨id, rfl, h⟩ := op.kept hrun hp
      · exact .inl h
      · exact .inr (.inr ⟨id, rfl, h⟩)
    · exact .inl hp

theorem StoreOp.deleted {st st' : Store} {op : StoreOp} {r : Nat} (hr : r < st.allocated)
    (hop : op.step st = some st') (hd : (st.states r).deleted = true) : (st'.states r).deleted = true := by
  cases step_moves hop with
  | getOrCreateOwned now id owner => exact ((Store.Turnover.getOrCreateOwned st now id owner).kept r hr).deleted hd
  | delete id => exact ((Store.Turnover.deleteLocked st id).kept r hr).deleted hd
  | @expire now order => exact ((Store.Turnover.expire st now order).kept r hr).deleted hd
  | expireSession id now => exact ((Store.Turnover.expireLocked st _ now).kept r hr).deleted hd
  | @on r' op s t _ hrun =>
    dsimp only [Store.set]
    rw [Function.update_apply]
    split
    · rename_i e
      subst e
      rw [(op.frame hrun).deleted, hd]
    · exact hd

/-- Some calls without an acknowledgement of the session `r`. -/
theorem Store.kept_run {st st' : Store} {ops : List StoreOp} {r p : Nat} (hr : r < st.allocated)
    (hops : ∀ id, .on r (.ack id) ∉ ops) (hrun : Sys.run StoreOp.step st ops = some st')
    (h : p ∈ (st.states r).entries ∨ (st.states r).deleted = true) :
    p ∈ (st'.states r).entries ∨ (st'.states r).deleted = true := by
  induction ops generalizing st with
  | nil =>
    cases hrun
    exact h
  | cons op ops ih =>
    obtain ⟨st₁, hop, hrun⟩ := Option.bind_eq_some_iff.mp hrun
    refine ih (hr.trans_le (StoreOp.keeps hop).allocated) (fun id hm => hops id (List.mem_cons_of_mem _ hm)) hrun ?_
    obtain hp | hd := h
    · obtain h' | h' | ⟨id, rfl, -⟩ := StoreOp.kept hr hop hp
      · exact .inl h'
      · exact .inr h'
      · exact (hops id List.mem_cons_self).elim
    · exact .inr (StoreOp.deleted hr hop hd)

end OrbMQ
