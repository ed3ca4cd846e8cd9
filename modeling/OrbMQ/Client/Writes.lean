import OrbMQ.Client

/-!
# What was written when `Send` returns

The writer takes the packets in the order in which they were accepted, and stops at the first error.
So a `Send` that returns without an error tells that its packet was written completely, after all
packets that were accepted before it.

* `Client.Inv`: the queue holds the last accepted packets, and the others are on the connection.
* `Client.Tracks channel j`: the result channel belongs to the accepted packet number `j`.
* `Client.Grows`: what every function keeps of the accepted and written packets.
-/

namespace OrbMQ

namespace Client

variable {c c' c'' : Client}

structure Inv (c : Client) : Prop where
  split : ∃ popped, c.accepted = popped ++ c.sendQ.map (·.data) ∧
    (c.writeDone = false → c.wire = popped.flatten)
  /-- The writer has not answered yet. -/
  waiting : ∀ ch ∈ c.sendQ.filterMap (·.result), ch < c.channels ∧ c.results ch = none
  distinct : (c.sendQ.filterMap (·.result)).Nodup
  answered : ∀ ch, c.channels ≤ ch → c.results ch = none

/-- The accepted packet number `j` is on the connection, with all packets before it. -/
def Written (j : Nat) (c : Client) : Prop := (c.accepted.take (j + 1)).flatten <+: c.wire

/-- What comes on `channel` is how the write of the accepted packet number `j` ends. -/
structure Tracks (channel j : Nat) (c : Client) : Prop where
  accepted : j < c.accepted.length
  result : (∃ front data rest, c.sendQ = front ++ ⟨data, some channel⟩ :: rest ∧
      j + rest.length + 1 = c.accepted.length) ∨
    ∃ res, c.results channel = some res ∧ (res = .ok () → c.Written j)

/-- What was accepted and written stays so. -/
structure Grows (c c' : Client) : Prop where
  accepted : c.accepted <+: c'.accepted
  wire : c.wire <+: c'.wire
  tracks : ∀ channel j, c.Tracks channel j → c'.Tracks channel j

theorem Grows.refl (c : Client) : c.Grows c := ⟨List.prefix_rfl, List.prefix_rfl, fun _ _ h => h⟩

theorem Written.of_extends {j : Nat} (h : c.Written j) (hj : j < c.accepted.length)
    (ha : c.accepted <+: c'.accepted) (hw : c.wire <+: c'.wire) : c'.Written j := by
  obtain ⟨more, e⟩ := ha
  have htake : c'.accepted.take (j + 1) = c.accepted.take (j + 1) := by
    rw [← e, List.take_append_of_le_length hj]
  rw [Written, htake]
  exact List.IsPrefix.trans h hw

/-- The wait for a packet is over: it was written. -/
theorem Tracks.written {channel j : Nat} (h : c.Tracks channel j) (hi : c.Inv)
    (hr : c.awaitSend channel = some (.ok ())) : c.Written j := by
  obtain ⟨front, data, rest, hq, -⟩ | ⟨res, hres, hw⟩ := h.result
  · have hnone := (hi.waiting channel (by simp [hq])).2
    rw [awaitSend, hnone] at hr
    dsimp only at hr
    split at hr <;> cases hr
  · rw [awaitSend, hres] at hr
    exact hw (Option.some.inj hr)

theorem inv_new (id : Bytes) : (new id).Inv := ⟨⟨[], rfl, fun _ => rfl⟩, nofun, .nil, fun _ _ => rfl⟩

/-! ## The functions -/

/-- Closing a connection, or the end of its writer. -/
theorem stop (h : c.Inv) (done writeDone : Bool) (hw : c.writeDone = true → writeDone = true) :
    ({ c with done, writeDone } : Client).Inv ∧ c.Grows { c with done, writeDone } := by
  obtain ⟨popped, ha, hwire⟩ := h.split
  refine ⟨⟨⟨popped, ha, fun hd => hwire ?_⟩, h.waiting, h.distinct, h.answered⟩,
    List.prefix_rfl, List.prefix_rfl, fun _ _ ht => ⟨ht.accepted, ht.result⟩⟩
  by_contra hn
  rw [hw (by simpa using hn)] at hd
  cases hd

/-- A packet joins the queue. Its result channel, if it has one, is not in use. -/
theorem accept_grows (h : c.Inv) (write : QueuedWrite)
    (hnew : ∀ ch, write.result = some ch → ch < c.channels ∧ c.results ch = none ∧
      ch ∉ c.sendQ.filterMap (·.result)) :
    ({ c with sendQ := c.sendQ ++ [write], accepted := c.accepted ++ [write.data] } : Client).Inv ∧
      c.Grows { c with sendQ := c.sendQ ++ [write], accepted := c.accepted ++ [write.data] } := by
  obtain ⟨popped, ha, hwire⟩ := h.split
  refine ⟨⟨⟨popped, by simp [ha], hwire⟩, fun ch hch => ?_, ?_, h.answered⟩,
    List.prefix_append _ _, List.prefix_rfl, fun channel j ht => ⟨?_, ?_⟩⟩
  · rw [List.filterMap_append, List.mem_append] at hch
    rcases hch with hch | hch
    · exact h.waiting ch hch
    · obtain ⟨hlt, hnone, -⟩ := hnew ch (by simpa using hch)
      exact ⟨hlt, hnone⟩
  · rw [List.filterMap_append]
    refine List.nodup_append.mpr ⟨h.distinct, ?_, ?_⟩
    · cases hr : write.result <;> simp [hr]
    · rintro ch hch _ hch' rfl
      exact (hnew ch (by simpa using hch')).2.2 hch
  · exact Nat.lt_of_lt_of_le ht.accepted (by simp)
  · obtain ⟨front, data, rest, hq, hlen⟩ | ⟨r, hr, hw⟩ := ht.result
    · refine .inl ⟨front, data, rest ++ [write], by simp [hq], ?_⟩
      simp only [List.length_append, List.length_singleton]
      omega
    · exact .inr ⟨r, hr, fun e => (hw e).of_extends ht.accepted (List.prefix_append _ _) List.prefix_rfl⟩

theorem enqueueWrite_grows (h : c.Inv) {write : QueuedWrite} {res : Except Err Unit}
    (he : c.enqueueWrite write = (res, c'))
    (hnew : ∀ ch, write.result = some ch → ch < c.channels ∧ c.results ch = none ∧
      ch ∉ c.sendQ.filterMap (·.result)) : c'.Inv ∧ c.Grows c' := by
  unfold enqueueWrite at he
  repeat' split at he
  all_goals cases he
  · exact ⟨h, .refl c⟩
  · exact accept_grows h write hnew
  · exact ⟨h, .refl c⟩

theorem enqueue_grows (h : c.Inv) (data : Bytes) : (c.enqueue data).2.Inv ∧ c.Grows (c.enqueue data).2 :=
  enqueueWrite_grows h (rfl : c.enqueueWrite ⟨data, none⟩ = _) fun _ hch => nomatch hch

/-- A new result channel. -/
theorem channel_grows (h : c.Inv) : ({ c with channels := c.channels + 1 } : Client).Inv ∧
    c.Grows { c with channels := c.channels + 1 } := by
  refine ⟨⟨h.split, fun ch hch => ⟨Nat.lt_succ_of_lt (h.waiting ch hch).1, (h.waiting ch hch).2⟩, h.distinct,
    fun ch hch => h.answered ch (Nat.le_of_succ_le hch)⟩, List.prefix_rfl, List.prefix_rfl, ?_⟩
  exact fun channel j ht => ⟨ht.accepted, ht.result⟩

theorem send_grows (h : c.Inv) (data : Bytes) : (c.send data).2.Inv ∧ c.Grows (c.send data).2 := by
  obtain ⟨hi, hg⟩ := channel_grows h
  have hnew : c.channels ∉ c.sendQ.filterMap (·.result) := fun hm =>
    Nat.lt_irrefl _ (h.waiting c.channels hm).1
  obtain ⟨hi', hg'⟩ := enqueueWrite_grows hi
    (rfl : ({ c with channels := c.channels + 1 } : Client).enqueueWrite ⟨data, some c.channels⟩ = _) (by
      rintro ch ⟨⟩
      exact ⟨Nat.lt_succ_self _, h.answered _ (Nat.le_refl _), hnew⟩)
  exact ⟨hi', hg'.accepted, hg'.wire, fun channel j ht => hg'.tracks channel j (hg.tracks channel j ht)⟩

/-- The packet of a `Send` is the next accepted one. -/
theorem send_tracks {data : Bytes} {channel : Nat} (h : c.send data = (.ok channel, c')) :
    c'.accepted = c.accepted ++ [data] ∧ c'.Tracks channel c.accepted.length := by
  rcases he : ({ c with channels := c.channels + 1 } : Client).enqueueWrite ⟨data, some c.channels⟩
    with ⟨res, c₁⟩
  simp only [send, he, Prod.mk.injEq] at h
  obtain ⟨hres, rfl⟩ := h
  unfold enqueueWrite at he
  repeat' split at he
  all_goals cases he
  · cases hres
  · cases hres
    exact ⟨rfl, by simp, .inl ⟨c.sendQ, data, [], rfl, by simp⟩⟩
  · cases hres

theorem writeError_none {n : Nat} {err : Option Err} {data : Bytes} (h : writeError n err data = none) :
    n = data.length := by
  unfold writeError at h
  split at h
  · cases h
  · rename_i hn
    by_contra hne
    exact hn ⟨by simp [h], hne⟩

/-- The writer answers one channel. -/
theorem answer_of_ne {result : Option Nat} {results : Nat → Option (Except Err Unit)} {res : Except Err Unit}
    {ch : Nat} (h : result ≠ some ch) :
    (result.elim results fun ch => Function.update results ch (some res)) ch = results ch := by
  cases result with
  | none => rfl
  | some ch' => exact Function.update_of_ne (fun e => h (by rw [e])) _ _

/-- The channels of the packets behind the first one. -/
theorem Inv.tail (h : c.Inv) {write : QueuedWrite} {rest : List QueuedWrite} (hq : c.sendQ = write :: rest) :
    (rest.filterMap (·.result)).Nodup ∧ ∀ ch ∈ rest.filterMap (·.result), write.result ≠ some ch := by
  have hd := h.distinct
  rw [hq, List.filterMap_cons] at hd
  cases hr : write.result with
  | none =>
    rw [hr] at hd
    exact ⟨hd, fun _ _ => nofun⟩
  | some ch =>
    rw [hr] at hd
    obtain ⟨hn, hd⟩ := List.nodup_cons.mp hd
    exact ⟨hd, fun ch' hch' e => hn (Option.some.inj e ▸ hch')⟩

/-- The client after the writer took `write` and `n` bytes of it were written. -/
def popped (write : QueuedWrite) (rest : List QueuedWrite) (n : Nat) (res : Except Err Unit)
    (done writeDone : Bool) (c : Client) : Client :=
  { c with
    sendQ := rest, wire := c.wire ++ write.data.take n, done, writeDone
    results := write.result.elim c.results fun ch => Function.update c.results ch (some res) }

section Popped

variable {write : QueuedWrite} {rest : List QueuedWrite} {n : Nat} {res : Except Err Unit}
  {done writeDone : Bool} (h : c.Inv) (hq : c.sendQ = write :: rest) (hopen : c.writeDone = false)

include h hq hopen

theorem popped_inv (hok : writeDone = false → n = write.data.length) :
    (c.popped write rest n res done writeDone).Inv := by
  obtain ⟨before, ha, hwire⟩ := h.split
  obtain ⟨hnodup, hne⟩ := h.tail hq
  refine ⟨⟨before ++ [write.data], ?_, fun hd => ?_⟩, fun ch hch => ?_, hnodup, fun ch hch => ?_⟩
  · show c.accepted = _
    rw [ha, hq]
    simp [popped]
  · show c.wire ++ write.data.take n = _
    rw [hwire hopen, hok hd]
    simp
  · have hold : ch ∈ c.sendQ.filterMap (·.result) := by
      rw [hq, List.filterMap_cons]
      split
      · exact hch
      · exact List.mem_cons_of_mem _ hch
    exact ⟨(h.waiting ch hold).1, (answer_of_ne (hne ch hch)).trans (h.waiting ch hold).2⟩
  · refine (answer_of_ne fun e => ?_).trans (h.answered ch hch)
    exact absurd (h.waiting ch (by simp [hq, e])).1 (Nat.not_lt.mpr hch)

theorem popped_tracks (hok : res = .ok () → n = write.data.length) {channel j : Nat} (ht : c.Tracks channel j) :
    (c.popped write rest n res done writeDone).Tracks channel j := by
  refine ⟨ht.accepted, ?_⟩
  obtain ⟨front, data, rest', hq', hlen⟩ | ⟨r, hr, hwr⟩ := ht.result
  · rw [hq] at hq'
    cases front with
    | nil =>
      -- The packet itself is written now: it comes after all that is on the connection.
      obtain ⟨rfl, rfl⟩ := List.cons.inj hq'
      obtain ⟨before, ha, hwire⟩ := h.split
      refine .inr ⟨res, Function.update_self .., fun he => ?_⟩
      rw [hq, List.map_cons] at ha
      have hj : j = before.length := by
        have := congrArg List.length ha
        simp only [List.length_append, List.length_map, List.length_cons] at this
        omega
      show (c.accepted.take (j + 1)).flatten <+: c.wire ++ data.take n
      rw [ha, hj, hok he, hwire hopen, List.take_append, List.take_of_length_le (Nat.le_succ _)]
      simp
    | cons w front =>
      obtain ⟨-, rfl⟩ := List.cons.inj hq'
      exact .inl ⟨front, data, rest', rfl, hlen⟩
  · have hne : write.result ≠ some channel := by
      intro e
      have := (h.waiting channel (by simp [hq, e])).2
      rw [hr] at this
      cases this
    exact .inr ⟨r, (answer_of_ne hne).trans hr, fun e =>
      (hwr e).of_extends ht.accepted List.prefix_rfl (List.prefix_append _ _)⟩

end Popped

/-- One round of the writer: the packet is on the connection, or the writer stops. -/
theorem writeNext_grows (h : c.Inv) {n : Nat} {err : Option Err} (hw : c.writeNext n err = some c') :
    c'.Inv ∧ c.Grows c' := by
  unfold writeNext at hw
  split at hw
  · cases hw
  rename_i hopen
  split at hw
  · cases hw
  rename_i write rest hq
  have hopen : c.writeDone = false := by simpa using hopen
  have hw := (Option.some.inj hw).symm
  split at hw
  · rename_i herr
    obtain ⟨e, he⟩ := Option.isSome_iff_exists.mp herr
    subst hw
    refine ⟨popped_inv h hq hopen nofun, List.prefix_rfl, List.prefix_append _ _, fun channel j ht =>
      popped_tracks h hq hopen (fun hok => ?_) ht⟩
    rw [he] at hok
    cases hok
  · rename_i herr
    have hn := writeError_none (by simpa using herr)
    subst hw
    exact ⟨popped_inv h hq hopen fun _ => hn, List.prefix_rfl, List.prefix_append _ _, fun channel j ht =>
      popped_tracks h hq hopen (fun _ => hn) ht⟩

theorem writerExit_grows (h : c.Inv) (hw : c.writerExit = some c') : c'.Inv ∧ c.Grows c' := by
  unfold writerExit at hw
  split at hw <;> cases hw
  exact stop h c.done true fun _ => rfl

end Client

end OrbMQ
