import OrbMQ.Client.Writes
import OrbMQ.Lib.Sys

/-!
# Callers, closers and the writer of a connection, step by step

`Client` has every function as one atomic section. Here the functions are taken apart at each of their operations
on channels: the two selects of `enqueue`, the two selects at the end of `SendWithDeadline`, and the writer, which
takes a packet, writes it byte after byte, answers and stops at an error. A select with several ready cases takes any
of them, so a packet can still be accepted after `Close`.

* `Race`: a client, its writer and the calls so far. `Race.step` is one operation of one of them.
* `Sim s v`: the client `v` is what `Client` sees of `s`: the packet in the hands of the writer is still queued, and
  its bytes are not written yet. Every step keeps the invariant of `v` and what `v` has accepted, written and
  promised (`step_sim`).
* `Race.Orderly`: what the wire and the callers see, in every run (`writes_orderly`).
-/

namespace OrbMQ

open Client (capacity)

/-- A call of `Enqueue`, or of `SendWithDeadline` if it `waits`. A packet that was accepted is number `j` of those. -/
inductive Call where
  -- before the first select of `enqueue`, and before the second one
  | checking (data : Bytes) (waits : Bool)
  | offering (data : Bytes) (waits : Bool)
  | refused (data : Bytes) (err : Err)
  | queued (data : Bytes) (j : Nat)
  -- before the outer select of `SendWithDeadline`, and before the inner one
  | waiting (data : Bytes) (j channel : Nat)
  | leaving (data : Bytes) (j channel : Nat)
  | answered (data : Bytes) (j : Nat) (res : Except Err Unit)

namespace Call

def data : Call → Bytes
  | checking data _ | offering data _ | refused data _ | queued data _ => data
  | waiting data _ _ | leaving data _ _ | answered data _ _ => data

/-- The number of its packet, if it was accepted. -/
def position : Call → Option Nat
  | checking .. | offering .. | refused .. => none
  | queued _ j | waiting _ j _ | leaving _ j _ | answered _ j _ => some j

end Call

/-- `writeLoop`; the connection has taken `n` bytes of the packet. -/
inductive Writer where
  | selecting
  | writing (write : QueuedWrite) (n : Nat)
  | answering (write : QueuedWrite) (n : Nat) (err : Option Err)
  | closing (write : QueuedWrite) (n : Nat)
  | broken (write : QueuedWrite) (n : Nat)
  | returned

namespace Writer

/-- The packet that was taken and is not written completely. -/
@[simp] def hand : Writer → List QueuedWrite
  | selecting | returned => []
  | writing write _ | answering write _ _ | closing write _ | broken write _ => [write]

/-- What is written of it. -/
@[simp] def part : Writer → Bytes
  | selecting | returned => []
  | writing write n | answering write n _ | closing write n | broken write n => write.data.take n

/-- The packet that has no answer yet. -/
@[simp] def unanswered : Writer → List QueuedWrite
  | writing write _ | answering write _ _ => [write]
  | _ => []

/-- A write was incomplete, or failed. -/
@[simp] def failed : Writer → Bool
  | answering _ _ err => err.isSome
  | closing .. | broken .. => true
  | _ => false

/-- The answer of a failed write was given, or the writer has returned. -/
@[simp] def stopped : Writer → Bool
  | closing .. | broken .. | returned => true
  | _ => false

end Writer

structure Race where
  client : Client
  writer : Writer := .selecting
  /-- In the order of their start. -/
  calls : List Call := []

/-- An operation on a channel; `closed` says that a select takes its case of the closed connection. -/
inductive RaceAction where
  | call (data : Bytes) (waits : Bool)
  | check (t : Nat)
  | offer (t : Nat) (closed : Bool)
  | await (t : Nat) (closed : Bool)
  | leave (t : Nat)
  | close
  -- the writer: its select, the write of a byte, the end of the write, the answer, and `Close` with the return
  | take
  | exit
  | put
  | written (err : Option Err)
  | answer
  | stop

namespace Race

def goto (t : Nat) (call : Call) (s : Race) : Race := { s with calls := s.calls.set t call }

/-- The packet of the call `t` joins the queue. -/
def accept (t : Nat) (data : Bytes) (waits : Bool) (s : Race) : Race :=
  let c := s.client
  let j := c.accepted.length
  let write : QueuedWrite := ⟨data, if waits then some c.channels else none⟩
  { s with
    client := { c with
      sendQ := c.sendQ ++ [write]
      accepted := c.accepted ++ [data]
      channels := if waits then c.channels + 1 else c.channels }
    calls := s.calls.set t (if waits then .waiting data j c.channels else .queued data j) }

def step (s : Race) : RaceAction → Option Race
  | .call data waits => some { s with calls := s.calls ++ [.checking data waits] }
  | .check t => match s.calls[t]? with
    | some (.checking data waits) =>
      some (s.goto t (if s.client.done then .refused data errClosed else .offering data waits))
    | _ => none
  | .offer t closed => match s.calls[t]? with
    | some (.offering data waits) =>
      if s.client.done ∧ (closed ∨ capacity ≤ s.client.sendQ.length) then some (s.goto t (.refused data errClosed))
      else if s.client.sendQ.length < capacity then some (s.accept t data waits)
      else some (s.goto t (.refused data errClientQueueFull))
    | _ => none
  | .await t closed => match s.calls[t]? with
    | some (.waiting data j channel) => match s.client.results channel with
      | some res => some (s.goto t (if s.client.done ∧ closed then .leaving data j channel else .answered data j res))
      | none => if s.client.done then some (s.goto t (.leaving data j channel)) else none
    | _ => none
  | .leave t => match s.calls[t]? with
    | some (.leaving data j channel) =>
      some (s.goto t (.answered data j ((s.client.results channel).getD (.error errClosed))))
    | _ => none
  | .close => some { s with client := s.client.close }
  | .take => match s.writer, s.client.sendQ with
    | .selecting, write :: rest => some { s with client := { s.client with sendQ := rest }, writer := .writing write 0 }
    | _, _ => none
  | .exit => match s.writer with
    | .selecting =>
      if s.client.done then some { s with client := { s.client with writeDone := true }, writer := .returned } else none
    | _ => none
  | .put => match s.writer with
    | .writing write n =>
      if n < write.data.length then some { s with
        client := { s.client with wire := s.client.wire ++ (write.data.drop n).take 1 }
        writer := .writing write (n + 1) }
      else none
    | _ => none
  | .written err => match s.writer with
    | .writing write n => some { s with writer := .answering write n (Client.writeError n err write.data) }
    | _ => none
  | .answer => match s.writer with
    | .answering write n err =>
      let res : Except Err Unit := err.elim (.ok ()) .error
      some { s with
        client := { s.client with
          results := write.result.elim s.client.results fun ch => Function.update s.client.results ch (some res) }
        writer := if err.isSome then .closing write n else .selecting }
    | _ => none
  | .stop => match s.writer with
    | .closing write n =>
      some { s with client := { s.client.close with writeDone := true }, writer := .broken write n }
    | _ => none

/-! ## What a step does -/

variable {s s' : Race} {v v' : Client}

/-- `enqueue` in one go, as `Client` has it, is a run. -/
theorem enqueue_run (s : Race) (data : Bytes) : ∃ acts call,
    Sys.run step s acts = some { s with client := (s.client.enqueue data).2, calls := s.calls ++ [call] } ∧
    match (s.client.enqueue data).1 with
    | .ok _ => call = .queued data s.client.accepted.length
    | .error err => call = .refused data err := by
  have hset : ∀ call call' : Call, (s.calls ++ [call]).set s.calls.length call' = s.calls ++ [call'] :=
    fun call call' => by simp
  unfold Client.enqueue Client.enqueueWrite
  by_cases hdone : s.client.done
  · refine ⟨[.call data false, .check s.calls.length], .refused data errClosed, ?_, ?_⟩
    · simp [Sys.run, step, hdone, goto]
    · simp [hdone]
  · by_cases hroom : s.client.sendQ.length < capacity
    · refine ⟨[.call data false, .check s.calls.length, .offer s.calls.length false],
        .queued data s.client.accepted.length, ?_, ?_⟩
      · simp [Sys.run, step, hset, hdone, hroom, goto, accept]
      · simp [hdone, hroom]
    · refine ⟨[.call data false, .check s.calls.length, .offer s.calls.length false],
        .refused data errClientQueueFull, ?_, ?_⟩
      · simp [Sys.run, step, hset, hdone, hroom, goto]
      · simp [hdone, hroom]

/-- How a call goes on, apart from the acceptance of its packet. -/
inductive Goes (c : Client) : Call → Call → Prop
  | offers {data : Bytes} {waits : Bool} : Goes c (.checking data waits) (.offering data waits)
  | closed {data : Bytes} {waits : Bool} : Goes c (.checking data waits) (.refused data errClosed)
  | refuses {data : Bytes} {waits : Bool} (err : Err) : Goes c (.offering data waits) (.refused data err)
  | leaves {data : Bytes} {j channel : Nat} : Goes c (.waiting data j channel) (.leaving data j channel)
  | returns {data : Bytes} {j channel : Nat} {res : Except Err Unit} : c.results channel = some res →
      Goes c (.waiting data j channel) (.answered data j res)
  | returnsLate {data : Bytes} {j channel : Nat} {res : Except Err Unit} : c.results channel = some res →
      Goes c (.leaving data j channel) (.answered data j res)
  | givesUp {data : Bytes} {j channel : Nat} : Goes c (.leaving data j channel) (.answered data j (.error errClosed))

/-- The steps, with what they need. -/
inductive Moves (s : Race) : Race → Prop
  | call (data : Bytes) (waits : Bool) : Moves s { s with calls := s.calls ++ [.checking data waits] }
  | goes {t : Nat} {call call' : Call} : s.calls[t]? = some call → Goes s.client call call' → Moves s (s.goto t call')
  | accept {t : Nat} {data : Bytes} {waits : Bool} : s.calls[t]? = some (.offering data waits) →
      Moves s (s.accept t data waits)
  | close : Moves s { s with client := s.client.close }
  | take {write : QueuedWrite} {rest : List QueuedWrite} : s.writer = .selecting → s.client.sendQ = write :: rest →
      Moves s { s with client := { s.client with sendQ := rest }, writer := .writing write 0 }
  | exit : s.writer = .selecting →
      Moves s { s with client := { s.client with writeDone := true }, writer := .returned }
  | put {write : QueuedWrite} {n : Nat} : s.writer = .writing write n →
      Moves s { s with
        client := { s.client with wire := s.client.wire ++ (write.data.drop n).take 1 }
        writer := .writing write (n + 1) }
  | written {write : QueuedWrite} {n : Nat} (err : Option Err) : s.writer = .writing write n →
      Moves s { s with writer := .answering write n (Client.writeError n err write.data) }
  | answer {write : QueuedWrite} {n : Nat} {err : Option Err} : s.writer = .answering write n err →
      Moves s { s with
        client := { s.client with
          results := write.result.elim s.client.results fun ch =>
            Function.update s.client.results ch (some (err.elim (.ok ()) .error)) }
        writer := if err.isSome then .closing write n else .selecting }
  | stop {write : QueuedWrite} {n : Nat} : s.writer = .closing write n →
      Moves s { s with client := { s.client.close with writeDone := true }, writer := .broken write n }

theorem step_moves {a : RaceAction} (h : s.step a = some s') : s.Moves s' := by
  cases a <;> simp only [step] at h
  case call data waits => cases h; exact .call data waits
  case close => cases h; exact .close
  case check t =>
    split at h <;> cases h
    split
    · exact .goes ‹_› .closed
    · exact .goes ‹_› .offers
  case offer t closed =>
    split at h
    · repeat' split at h
      all_goals cases h
      · exact .goes ‹_› (.refuses _)
      · exact .accept ‹_›
      · exact .goes ‹_› (.refuses _)
    · cases h
  case await t closed =>
    split at h
    · split at h
      · cases h
        split
        · exact .goes ‹_› .leaves
        · exact .goes ‹_› (.returns ‹_›)
      · split at h <;> cases h
        exact .goes ‹_› .leaves
    · cases h
  case leave t =>
    split at h <;> cases h
    rename_i channel hcall
    cases hr : s.client.results channel with
    | none => exact .goes hcall .givesUp
    | some res => exact .goes hcall (.returnsLate hr)
  case take => split at h <;> cases h; exact .take ‹_› ‹_›
  case exit =>
    split at h
    · split at h <;> cases h
      exact .exit ‹_›
    · cases h
  case put =>
    split at h
    · split at h <;> cases h
      exact .put ‹_›
    · cases h
  case written err => split at h <;> cases h; exact .written err ‹_›
  case answer => split at h <;> cases h; exact .answer ‹_›
  case stop => split at h <;> cases h; exact .stop ‹_›

/-! ## The wire -/

/-- What was written is what was taken, up to the packet in the hands of the writer. -/
structure Wire (s : Race) : Prop where
  split : ∃ before, s.client.accepted = before ++ (s.writer.hand ++ s.client.sendQ).map (·.data) ∧
    s.client.wire = before.flatten ++ s.writer.part
  whole : ∀ write n, s.writer = .answering write n none → n = write.data.length

theorem Wire.step (h : s.Wire) (hm : s.Moves s') : s'.Wire := by
  obtain ⟨before, ha, hw⟩ := h.split
  have hwhole := h.whole
  cases hm with
  | call | goes | close => exact ⟨⟨before, ha, hw⟩, hwhole⟩
  | @accept t data waits =>
    refine ⟨⟨before, ?_, hw⟩, hwhole⟩
    simp [accept, ha]
  | take hsel hq => exact ⟨⟨before, by simpa [hsel, hq, Writer.hand] using ha, by simpa [hsel, Writer.part] using hw⟩, nofun⟩
  | exit hsel => exact ⟨⟨before, by simpa [hsel, Writer.hand] using ha, by simpa [hsel, Writer.part] using hw⟩, nofun⟩
  | @put write n hwr =>
    rw [hwr] at ha hw
    refine ⟨⟨before, ha, ?_⟩, nofun⟩
    show s.client.wire ++ _ = before.flatten ++ write.data.take (n + 1)
    rw [hw, List.take_add, List.append_assoc]
    rfl
  | @written write n err hwr =>
    rw [hwr] at ha hw
    refine ⟨⟨before, ha, hw⟩, fun write' n' he => ?_⟩
    obtain ⟨rfl, rfl, hnone⟩ := Writer.answering.inj he
    exact Client.writeError_none hnone
  | @answer write n err hwr =>
    rw [hwr] at ha hw
    cases err with
    | some e => exact ⟨⟨before, ha, hw⟩, nofun⟩
    | none =>
      refine ⟨⟨before ++ [write.data], ?_, ?_⟩, nofun⟩
      · simpa [Writer.hand] using ha
      · simpa [Writer.part, hwhole write n hwr] using hw
  | stop hwr =>
    rw [hwr] at ha hw
    exact ⟨⟨before, ha, hw⟩, nofun⟩

/-- After a failed write nothing is written. -/
theorem step_failed (hf : s.writer.failed = true) (hm : s.Moves s') :
    s'.writer.failed = true ∧ s'.client.wire = s.client.wire := by
  cases hm with
  | call | goes | close | accept => exact ⟨hf, rfl⟩
  | take hsel | exit hsel | put hsel | written _ hsel =>
    rw [hsel] at hf
    cases hf
  | @answer write n err hwr =>
    rw [hwr] at hf
    cases err with
    | none => cases hf
    | some e => exact ⟨rfl, rfl⟩
  | stop => exact ⟨rfl, rfl⟩

/-! ## The client between two writes -/

/-- The client `v` still has the packet in the hands of the writer in its queue. -/
structure Sim (s : Race) (v : Client) : Prop where
  accepted : v.accepted = s.client.accepted
  queue : v.sendQ = s.writer.unanswered ++ s.client.sendQ
  wire : s.client.wire = v.wire ++ if s.writer.stopped then [] else s.writer.part
  results : v.results = s.client.results
  channels : v.channels = s.client.channels
  stopped : v.writeDone = s.writer.stopped

/-- **Refinement**: a step is one of the client between two writes, or none. -/
theorem step_sim (h : s.Sim v) (hi : v.Inv) (hw : s.Wire) (hm : s.Moves s') :
    ∃ v', s'.Sim v' ∧ v'.Inv ∧ v.Grows v' := by
  obtain ⟨ha, hq, hwire, hres, hch, hstop⟩ := h
  cases hm with
  | call | goes | close => exact ⟨v, ⟨ha, hq, hwire, hres, hch, hstop⟩, hi, .refl v⟩
  | @accept t data waits =>
    cases waits with
    | false =>
      obtain ⟨hi', hg⟩ := Client.accept_grows hi ⟨data, none⟩ nofun
      refine ⟨_, ?_, hi', hg⟩
      exact ⟨by simp [accept, ha], by simp [accept, hq], hwire, hres, by simpa [accept] using hch, hstop⟩
    | true =>
      obtain ⟨hi₁, hg₁⟩ := Client.channel_grows hi
      have hfresh : v.channels ∉ v.sendQ.filterMap (·.result) := fun hm => Nat.lt_irrefl _ (hi.waiting _ hm).1
      obtain ⟨hi₂, hg₂⟩ := Client.accept_grows hi₁ ⟨data, some v.channels⟩ (by
        rintro ch ⟨⟩
        exact ⟨Nat.lt_succ_self _, hi.answered _ (Nat.le_refl _), hfresh⟩)
      refine ⟨_, ?_, hi₂, hg₂.accepted, hg₂.wire, fun ch j ht => hg₂.tracks ch j (hg₁.tracks ch j ht)⟩
      exact ⟨by simp [accept, ha], by simp [accept, hq, hch], hwire, hres, by simp [accept, hch], hstop⟩
  | take hsel hq' =>
    simp only [hsel, Writer.unanswered, Writer.stopped, Writer.part] at hq hwire hstop
    exact ⟨v, ⟨ha, by simpa [hq'] using hq, by simpa using hwire, hres, hch, hstop⟩, hi, .refl v⟩
  | exit hsel =>
    simp only [hsel, Writer.unanswered, Writer.stopped, Writer.part] at hq hwire hstop
    obtain ⟨hi', hg⟩ := Client.stop hi v.done true fun _ => rfl
    refine ⟨_, ?_, hi', hg⟩
    exact ⟨ha, hq, by simpa using hwire, hres, hch, rfl⟩
  | @put write n hwr =>
    simp only [hwr, Writer.unanswered, Writer.stopped, Writer.part] at hq hwire hstop
    refine ⟨v, ⟨ha, hq, ?_, hres, hch, hstop⟩, hi, .refl v⟩
    show s.client.wire ++ _ = v.wire ++ write.data.take (n + 1)
    rw [hwire, List.take_add, List.append_assoc]
    rfl
  | written err hwr =>
    simp only [hwr, Writer.unanswered, Writer.stopped, Writer.part] at hq hwire hstop
    exact ⟨v, ⟨ha, hq, hwire, hres, hch, hstop⟩, hi, .refl v⟩
  | @answer write n err hwr =>
    have hwhole := hw.whole write n
    simp only [hwr, Writer.unanswered, Writer.stopped, Writer.part] at hq hwire hstop hwhole
    have hok : ∀ {res : Except Err Unit}, res = err.elim (.ok ()) .error → res = .ok () → n = write.data.length := by
      rintro res rfl he
      cases err with
      | none => exact hwhole rfl
      | some e => cases he
    refine ⟨v.popped write s.client.sendQ n (err.elim (.ok ()) .error) v.done err.isSome,
      ⟨ha, ?_, ?_, ?_, hch, ?_⟩, ?_, List.prefix_rfl, List.prefix_append _ _, fun ch j ht => ?_⟩
    · cases err <;> rfl
    · cases err <;> simpa [Client.popped, Writer.stopped, Writer.part] using hwire
    · simp [Client.popped, hres]
    · cases err <;> rfl
    · refine Client.popped_inv hi hq hstop fun he => ?_
      cases err with
      | none => exact hwhole rfl
      | some e => cases he
    · exact Client.popped_tracks hi hq hstop (hok rfl) ht
  | stop hwr =>
    simp only [hwr, Writer.unanswered, Writer.stopped, Writer.part] at hq hwire hstop
    exact ⟨v, ⟨ha, hq, hwire, hres, hch, hstop⟩, hi, .refl v⟩

/-! ## The calls -/

/-- What a call can rely on. -/
def Ok (v : Client) : Call → Prop
  | .checking .. | .offering .. | .refused .. => True
  | .queued data j => v.accepted[j]? = some data
  | .waiting data j channel | .leaving data j channel => v.accepted[j]? = some data ∧ v.Tracks channel j
  | .answered data j res => v.accepted[j]? = some data ∧ (res = .ok () → v.Written j)

theorem Ok.data {call : Call} (h : Ok v call) {j : Nat} (hj : call.position = some j) :
    v.accepted[j]? = some call.data := by
  cases call with
  | checking | offering | refused => cases hj
  | queued =>
    cases hj
    exact h
  | waiting | leaving | answered =>
    cases hj
    exact h.1

theorem getElem?_of_extends {l l' : List Bytes} {j : Nat} {data : Bytes} (h : l <+: l') (hj : l[j]? = some data) :
    l'[j]? = some data := by
  obtain ⟨rest, rfl⟩ := h
  rw [List.getElem?_append_left (List.getElem?_eq_some_iff.mp hj).1]
  exact hj

theorem Ok.grows {call : Call} (h : Ok v call) (hg : v.Grows v') : Ok v' call := by
  cases call with
  | checking | offering | refused => trivial
  | queued => exact getElem?_of_extends hg.accepted h
  | waiting | leaving => exact ⟨getElem?_of_extends hg.accepted h.1, hg.tracks _ _ h.2⟩
  | answered data j res =>
    refine ⟨getElem?_of_extends hg.accepted h.1, fun he => ?_⟩
    exact (h.2 he).of_extends (List.getElem?_eq_some_iff.mp h.1).1 hg.accepted hg.wire

/-- An answer without an error: the packet was written. -/
theorem written_of_result (hi : v.Inv) {channel j : Nat} (ht : v.Tracks channel j) {res : Except Err Unit}
    (hr : v.results channel = some res) (he : res = .ok ()) : v.Written j := by
  refine ht.written hi ?_
  rw [Client.awaitSend, hr, he]

theorem Ok.goes {c : Client} {call call' : Call} (h : Ok v call) (hi : v.Inv) (hres : v.results = c.results)
    (hg : Goes c call call') : Ok v call' := by
  cases hg with
  | offers | closed | refuses => trivial
  | leaves => exact h
  | returns hr | returnsLate hr => exact ⟨h.1, written_of_result hi h.2 (by rw [hres, hr])⟩
  | givesUp => exact ⟨h.1, nofun⟩

/-- The number of the packet of the call `t`. -/
def place (calls : List Call) (t : Nat) : Option Nat := calls[t]?.bind Call.position

/-- The accepted packets are numbered by the calls that they come from. -/
structure Numbered (place : Nat → Option Nat) (n : Nat) : Prop where
  covered : ∀ j < n, ∃ t, place t = some j
  unique : ∀ t t' j, place t = some j → place t' = some j → t = t'
  bound : ∀ t j, place t = some j → j < n

theorem place_set {calls : List Call} {t : Nat} {call : Call} (h : calls[t]? = some call) (call' : Call) :
    place (calls.set t call') = Function.update (place calls) t call'.position := by
  funext t'
  have hlt := (List.getElem?_eq_some_iff.mp h).1
  by_cases ht : t' = t
  · subst ht
    simp [place, hlt]
  · have hne : t ≠ t' := fun e => ht e.symm
    simp [place, ht, List.getElem?_set_ne hne]

/-- A call that keeps its number. -/
theorem place_goes {c : Client} {calls : List Call} {t : Nat} {call call' : Call} (h : calls[t]? = some call)
    (hg : Goes c call call') : place (calls.set t call') = place calls := by
  have hpos : call'.position = call.position := by cases hg <;> rfl
  rw [place_set h, hpos]
  refine Function.update_eq_self_iff.mpr ?_
  simp [place, h]

theorem place_append (calls : List Call) (data : Bytes) (waits : Bool) :
    place (calls ++ [.checking data waits]) = place calls := by
  funext t
  unfold place
  by_cases ht : t < calls.length
  · rw [List.getElem?_append_left ht]
  · rw [List.getElem?_append_right (Nat.le_of_not_lt ht), List.getElem?_eq_none (Nat.le_of_not_lt ht)]
    cases t - calls.length <;> rfl

/-- The next packet is that of the call `t`, which had none. -/
theorem Numbered.accept {place : Nat → Option Nat} {n t : Nat} (h : Numbered place n) (ht : place t = none) :
    Numbered (Function.update place t (some n)) (n + 1) := by
  refine ⟨fun j hj => ?_, fun t₁ t₂ j h₁ h₂ => ?_, fun t₁ j h₁ => ?_⟩
  · by_cases hn : j = n
    · exact ⟨t, by simp [hn]⟩
    · obtain ⟨t', ht'⟩ := h.covered j (by omega)
      have hne : t' ≠ t := by
        rintro rfl
        rw [ht] at ht'
        cases ht'
      exact ⟨t', by simpa [hne] using ht'⟩
  · have hb := h.bound
    have hu := h.unique t₁ t₂ j
    simp only [Function.update_apply] at h₁ h₂
    split at h₁ <;> split at h₂
    · simp_all
    · cases h₁
      exact absurd (hb t₂ n h₂) (Nat.lt_irrefl n)
    · cases h₂
      exact absurd (hb t₁ n h₁) (Nat.lt_irrefl n)
    · exact hu h₁ h₂
  · rw [Function.update_apply] at h₁
    split at h₁
    · cases h₁
      exact Nat.lt_succ_self n
    · exact Nat.lt_succ_of_lt (h.bound t₁ j h₁)

/-! ## Every run -/

structure Inv (s : Race) : Prop where
  wire : s.Wire
  calls : ∃ v, s.Sim v ∧ v.Inv ∧ ∀ call ∈ s.calls, Ok v call
  numbered : Numbered (place s.calls) s.client.accepted.length

theorem inv_new (id : Bytes) : Inv { client := .new id } where
  wire := ⟨⟨[], rfl, rfl⟩, nofun⟩
  calls := ⟨.new id, ⟨rfl, rfl, rfl, rfl, rfl, rfl⟩, Client.inv_new id, nofun⟩
  numbered := ⟨nofun, nofun, nofun⟩

theorem Inv.step (h : s.Inv) (hm : s.Moves s') : s'.Inv := by
  obtain ⟨v, hsim, hi, hok⟩ := h.calls
  obtain ⟨v', hsim', hi', hg⟩ := step_sim hsim hi h.wire hm
  have hold : ∀ call ∈ s.calls, Ok v' call := fun call hc => (hok call hc).grows hg
  refine ⟨h.wire.step hm, ⟨v', hsim', hi', fun call hc => ?_⟩, ?_⟩
  · cases hm with
    | call =>
      rcases List.mem_append.mp hc with hc | hc
      · exact hold call hc
      · rw [List.mem_singleton.mp hc]
        trivial
    | @goes t call₀ call' ht hgoes =>
      rcases List.mem_or_eq_of_mem_set hc with hc | rfl
      · exact hold call hc
      · exact (hold call₀ (List.mem_of_getElem? ht)).goes hi' hsim'.results hgoes
    | @accept t data waits ht =>
      rcases List.mem_or_eq_of_mem_set hc with hc | rfl
      · exact hold call hc
      · have hlast : v'.accepted[s.client.accepted.length]? = some data := by simp [hsim'.accepted, Race.accept]
        cases waits with
        | false => exact hlast
        | true =>
          refine ⟨hlast, ⟨by simp [hsim'.accepted, Race.accept], .inl ?_⟩⟩
          refine ⟨s.writer.unanswered ++ s.client.sendQ, data, [], ?_, by simp [hsim'.accepted, Race.accept]⟩
          simp [hsim'.queue, Race.accept]
    | _ => exact hold call hc
  · cases hm with
    | call data waits =>
      rw [place_append]
      exact h.numbered
    | goes ht hgoes =>
      show Numbered (place (s.calls.set _ _)) _
      rw [place_goes ht hgoes]
      exact h.numbered
    | @accept t data waits ht =>
      have hplace : place s.calls t = none := by simp [place, ht, Call.position]
      have hpos : (if waits then Call.waiting data s.client.accepted.length s.client.channels
          else .queued data s.client.accepted.length).position = some s.client.accepted.length := by
        cases waits <;> rfl
      have hlen : (s.accept t data waits).client.accepted.length = s.client.accepted.length + 1 := by
        simp [Race.accept]
      rw [hlen]
      show Numbered (place (s.calls.set _ _)) _
      rw [place_set ht, hpos]
      exact h.numbered.accept hplace
    | _ => exact h.numbered

theorem step_refused {t : Nat} {data : Bytes} {err : Err} (h : s.calls[t]? = some (.refused data err))
    (hm : s.Moves s') : s'.calls[t]? = some (.refused data err) := by
  have hset : ∀ {t' call call'}, s.calls[t']? = some call → (∀ data err, call ≠ .refused data err) →
      (s.calls.set t' call')[t]? = some (.refused data err) := by
    intro t' call call' hc hne
    have ht : t' ≠ t := by
      rintro rfl
      rw [hc] at h
      exact hne data err (Option.some.inj h)
    rw [List.getElem?_set_ne ht]
    exact h
  cases hm with
  | call =>
    rw [List.getElem?_append_left (List.getElem?_eq_some_iff.mp h).1]
    exact h
  | goes ht hgoes =>
    refine hset ht ?_
    cases hgoes <;> exact nofun
  | accept ht => exact hset ht nofun
  | _ => exact h

/-- What the connection and the callers see of a client. -/
structure Orderly (s : Race) : Prop where
  /-- The bytes written are accepted packets in the order of their acceptance; the last one may be incomplete. -/
  wire : ∃ n part, n ≤ s.client.accepted.length ∧ s.client.wire = (s.client.accepted.take n).flatten ++ part ∧
    (part = [] ∨ ∃ data, s.client.accepted[n]? = some data ∧ part <+: data)
  /-- A write that ends before its packet is complete has failed. -/
  incomplete : ∀ write n err, s.writer = .answering write n err → n ≠ write.data.length → s.writer.failed = true
  /-- Nothing is written after a failed write. -/
  last : s.writer.failed = true → ∀ acts s', Sys.run step s acts = some s' → s'.client.wire = s.client.wire
  /-- A `Send` without an error: its packet and every packet accepted before it are written. -/
  sent : ∀ (t : Nat) data j, s.calls[t]? = some (.answered data j (.ok ())) →
    s.client.accepted[j]? = some data ∧ s.client.Written j
  /-- Every accepted packet is that of one call, whose `enqueue` returned no error. -/
  packets : ∀ (j : Nat) data, s.client.accepted[j]? = some data →
    ∃! t : Nat, ∃ call, s.calls[t]? = some call ∧ call.position = some j ∧ call.data = data
  /-- A call whose `enqueue` returned an error never has a packet. -/
  refused : ∀ (t : Nat) data err, s.calls[t]? = some (.refused data err) →
    ∀ acts s', Sys.run step s acts = some s' → s'.calls[t]? = some (.refused data err)

theorem Wire.written (h : s.Wire) : ∃ n part, n ≤ s.client.accepted.length ∧
    s.client.wire = (s.client.accepted.take n).flatten ++ part ∧
    (part = [] ∨ ∃ data, s.client.accepted[n]? = some data ∧ part <+: data) := by
  obtain ⟨before, ha, hw⟩ := h.split
  refine ⟨before.length, s.writer.part, by simp [ha], by simp [ha, hw], ?_⟩
  cases hwr : s.writer with
  | selecting | returned => exact .inl rfl
  | writing write n | answering write n err | closing write n | broken write n =>
    exact .inr ⟨write.data, by simp [ha, hwr], List.take_prefix n write.data⟩

/-- **Writes in order**, for any interleaving of callers, closers and the writer. -/
theorem writes_orderly (id : Bytes) (acts : List RaceAction) (s : Race)
    (h : Sys.run step { client := .new id } acts = some s) : s.Orderly := by
  have hinv : s.Inv := Sys.run_invariant (inv_new id) (fun _ _ _ hi hs => hi.step (step_moves hs)) h
  obtain ⟨v, hsim, hi, hok⟩ := hinv.calls
  refine ⟨hinv.wire.written, fun write n err hwr hne => ?_, fun hf acts s' hrun => ?_, fun t data j ht => ?_,
    fun j data hj => ?_, fun t data err ht acts s' hrun => ?_⟩
  · cases err with
    | none => exact absurd (hinv.wire.whole write n hwr) hne
    | some e => simp [hwr]
  · have hkept := Sys.run_invariant (I := fun s' => s'.writer.failed = true ∧ s'.client.wire = s.client.wire)
      ⟨hf, rfl⟩ (fun s₁ a s₂ hi hs => ?_) hrun
    · exact hkept.2
    · obtain ⟨hf', hw'⟩ := step_failed hi.1 (step_moves hs)
      exact ⟨hf', hw'.trans hi.2⟩
  · obtain ⟨hdata, hwritten⟩ := hok _ (List.mem_of_getElem? ht)
    have hprefix : v.wire <+: s.client.wire := hsim.wire ▸ List.prefix_append _ _
    rw [hsim.accepted] at hdata
    exact ⟨hdata, (hwritten rfl).of_extends
      (by rw [hsim.accepted]; exact (List.getElem?_eq_some_iff.mp hdata).1) (by rw [hsim.accepted]) hprefix⟩
  · obtain ⟨t, ht⟩ := hinv.numbered.covered j (List.getElem?_eq_some_iff.mp hj).1
    obtain ⟨call, hc, hpos⟩ := Option.bind_eq_some_iff.mp ht
    have hdata := (hok call (List.mem_of_getElem? hc)).data hpos
    rw [hsim.accepted, hj] at hdata
    refine ⟨t, ⟨call, hc, hpos, (Option.some.inj hdata).symm⟩, ?_⟩
    rintro t' ⟨call', hc', hpos', -⟩
    exact hinv.numbered.unique t' t j (by simp [place, hc', hpos']) ht
  · exact Sys.run_invariant (I := fun s' => s'.calls[t]? = some (.refused data err)) ht
      (fun _ _ _ hi hs => step_refused hi (step_moves hs)) hrun

/-- A `Send` of two bytes is answered; `Close` comes between the two selects of an `Enqueue`, whose packet is accepted
and written in part. A later call is refused. -/
def closesBetween : List RaceAction :=
  [.call [1, 2] true, .check 0, .offer 0 false, .call [3, 4] false, .check 1, .take, .put, .put, .written none, .answer,
    .close, .offer 1 false, .await 0 true, .leave 0, .take, .put, .written none, .call [5] false, .check 2]

theorem writes_orderly_closed : ∃ s, Sys.run step { client := .new [99] } closesBetween = some s ∧
    s.client.wire = [1, 2, 3] ∧ s.writer.failed = true ∧ s.Orderly := by
  have hrun : ((Sys.run step { client := .new [99] } closesBetween).map fun s => (s.client.wire, s.writer.failed)) =
      some ([1, 2, 3], true) := by decide
  obtain ⟨s, hs, he⟩ := Option.map_eq_some_iff.mp hrun
  simp only [Prod.mk.injEq] at he
  exact ⟨s, hs, he.1, he.2, writes_orderly [99] closesBetween s hs⟩

end Race

end OrbMQ
