import OrbMQ.Broker
import OrbMQ.Lib.Sys

/-!
# What the broker retains

The broker counts its retained messages and their bytes step by step. `Broker.Accounts` says that
the counts are exact and within the limits, and that a topic has the last retained publication that
was accepted for it. Every call keeps it (`BrokerOp.step_accounts`), so it holds after any sequence
of calls; and then an update is refused exactly if the messages with it would not be within the
limits (`Broker.Accounts.overLimit_iff`).
-/

namespace OrbMQ

open Go

namespace Broker

/-- `Publish`: its error, and the subscriptions that `deliver` is called for, in their order; `none`
if `Match` cannot return `subs`. -/
def publish (pub : PublishPacket) (subs : List (Subscription Nat)) (b : Broker) :
    Option ((Except Err Unit × List (Subscription Nat)) × Broker) :=
  match if pub.retain then b.updateRetained pub else (.ok (), b) with
  | (.error e, b) => some ((.error e, []), b)
  | (.ok _, b) => if b.topics.Matches pub.topic subs then some ((.ok (), subs), b) else none

end Broker

/-- A call on the broker. -/
inductive BrokerOp where
  | publish (pub : PublishPacket) (subs : List (Subscription Nat))
  | subscribe (filter : Bytes) (qos : UInt8) (id : Bytes) (r : Nat)
  | unsubscribe (filter clientID : Bytes)
  | unsubscribeAll (clientID : Bytes)

def BrokerOp.step (b : Broker) : BrokerOp → Option Broker
  | .publish pub subs => (b.publish pub subs).map Prod.snd
  | .subscribe filter qos id r => some (b.subscribe filter qos id r)
  | .unsubscribe filter clientID => some (b.unsubscribe filter clientID)
  | .unsubscribeAll clientID => some (b.unsubscribeAll clientID)

/-- The publications that were accepted, in their order. -/
def BrokerOp.note (b : Broker) (op : BrokerOp) (log : List PublishPacket) : List PublishPacket :=
  match op with
  | .publish pub subs => match b.publish pub subs with
    | some ((.ok _, _), _) => log ++ [pub]
    | _ => log
  | _ => log

/-- The message that the retained publications in `log` leave for a topic: the last of them, or none
if its payload is empty. -/
def lastRetained (topic : Bytes) (log : List PublishPacket) : Option PublishPacket :=
  ((log.filter fun p => p.retain ∧ p.topic = topic).getLast?).bind fun p =>
    if p.payload = [] then none else some { p with dup := false, retain := true }

theorem lastRetained_snoc (topic : Bytes) (log : List PublishPacket) (p : PublishPacket) :
    lastRetained topic (log ++ [p]) =
      if p.retain ∧ p.topic = topic then
        if p.payload = [] then none else some { p with dup := false, retain := true }
      else lastRetained topic log := by
  unfold lastRetained
  rw [List.filter_append]
  by_cases hp : p.retain ∧ p.topic = topic
  · have hlast : [p].filter (fun p => decide (p.retain ∧ p.topic = topic)) = [p] := by simp [hp]
    rw [if_pos hp, hlast, List.getLast?_append]
    rfl
  · have hnone : [p].filter (fun p => decide (p.retain ∧ p.topic = topic)) = [] := by
      rw [List.filter_cons_of_neg (by simpa using hp), List.filter_nil]
    rw [if_neg hp, hnone, List.append_nil]

namespace Broker

/-- The messages with `pub` among them are not within the limits. -/
def Exceeds (pub : PublishPacket) (b : Broker) : Prop :=
  let retained := b.retained.insert pub.topic { pub with dup := false, retain := true }
  b.limits.maxMessages < retained.size ∨ b.limits.maxBytes < Map.sum retainedSize retained

/-- After the accepted publications `log`: what is retained, and what is counted. -/
structure Accounts (log : List PublishPacket) (b : Broker) : Prop where
  last : ∀ topic, b.retained[topic]? = lastRetained topic log
  messages : b.stats.retainedMessages = b.retained.size
  bytes : b.stats.retainedBytes = Map.sum retainedSize b.retained
  messages_le : b.stats.retainedMessages ≤ b.limits.maxMessages
  bytes_le : b.stats.retainedBytes ≤ b.limits.maxBytes

theorem newBytes_of_ne {pub : PublishPacket} (h : pub.payload ≠ []) : newBytes pub = retainedSize pub :=
  if_pos (List.length_pos_iff.mpr h)

theorem newBytes_of_empty {pub : PublishPacket} (h : pub.payload = []) : newBytes pub = 0 := by
  rw [newBytes, h]
  rfl

theorem accounts_new {limits : RetainedLimits} {b : Broker} (h : newWithLimits limits = .ok b) :
    b.Accounts [] := by
  obtain ⟨_, hv, h⟩ := except_bind_ok_iff.mp h
  cases h
  have hpos : ¬ (limits.maxMessages ≤ 0 ∨ limits.maxBytes ≤ 0) := by
    intro hn
    unfold RetainedLimits.validate at hv
    rw [if_pos hn] at hv
    cases hv
  refine ⟨fun topic => ?_, rfl, (Map.sum_empty _).symm, ?_, ?_⟩
  · simp [lastRetained]
  · show (0 : Int) ≤ limits.maxMessages
    omega
  · show (0 : Int) ≤ limits.maxBytes
    omega

/-- The messages after an update that was not refused. -/
theorem sum_update (pub : PublishPacket) (b : Broker) :
    Map.sum retainedSize (b.retained.insert pub.topic { pub with dup := false, retain := true }) =
      Map.sum retainedSize b.retained - b.oldBytes pub + retainedSize pub :=
  Map.sum_insert _ _ _ _

namespace Accounts

variable {log : List PublishPacket} {b : Broker} (h : b.Accounts log)

include h

/-- With exact counts, the check of `updateRetained` decides whether the messages would be within
the limits. -/
theorem overLimit_iff (pub : PublishPacket) :
    b.overLimit pub = true ↔ pub.payload ≠ [] ∧ b.Exceeds pub := by
  have hm := h.messages
  have hle := h.messages_le
  by_cases hp : pub.payload = []
  · simp [overLimit, hp]
  have hb : newBytes pub > b.limits.maxBytes - (b.stats.retainedBytes - b.oldBytes pub) ↔
      b.limits.maxBytes <
        Map.sum retainedSize (b.retained.insert pub.topic { pub with dup := false, retain := true }) := by
    rw [sum_update, newBytes_of_ne hp, h.bytes]
    omega
  have hs : (b.retained[pub.topic]? = none ∧ (b.retained.size : Int) ≥ b.limits.maxMessages) ↔
      b.limits.maxMessages <
        (b.retained.insert pub.topic { pub with dup := false, retain := true }).size := by
    cases hold : b.retained[pub.topic]? with
    | none =>
      rw [Map.size_insert_new _ _ hold]
      simp only [true_and]
      omega
    | some old =>
      rw [Map.size_insert_old _ hold]
      simp only [reduceCtorEq, false_and, false_iff]
      omega
  have hlen : 0 < pub.payload.length := List.length_pos_iff.mpr hp
  simp only [overLimit, Bool.and_eq_true, Bool.or_eq_true, decide_eq_true_eq, hlen, true_and, hs, hb,
    Exceeds, ne_eq, hp, not_false_eq_true]

/-- An update that is not refused leaves exact counts that are within the limits. -/
theorem update {pub : PublishPacket} (hr : pub.retain = true) {b' : Broker}
    (hu : b.updateRetained pub = (.ok (), b')) : b'.Accounts (log ++ [pub]) := by
  have hget := updateRetained_cases hu
  have hover : ¬ b.overLimit pub = true := by
    intro ho
    rw [updateRetained, if_pos ho] at hu
    cases hu
  rw [updateRetained, if_neg hover] at hu
  rw [h.overLimit_iff] at hover
  have hlast : ∀ topic, b'.retained[topic]? = lastRetained topic (log ++ [pub]) := by
    intro topic
    obtain ⟨-, ⟨he, -⟩ | ⟨-, hget⟩⟩ := hget
    · cases he
    rw [hget, lastRetained_snoc, h.last]
    simp only [hr, true_and, List.length_eq_zero_iff]
  by_cases hp : pub.payload = []
  · -- The topic loses its message, and what it took up.
    have hsize : (b.retained.erase pub.topic).size ≤ b.retained.size := by
      cases hold : b.retained[pub.topic]? with
      | none => rw [Map.erase_none _ hold]
      | some old =>
        have := Map.size_erase_some _ hold
        omega
    have hold : 0 ≤ b.oldBytes pub := by
      unfold oldBytes
      cases b.retained[pub.topic]? with
      | none => exact le_rfl
      | some old =>
        show 0 ≤ retainedSize old
        unfold retainedSize
        omega
    have hbytes := h.bytes
    have hbytes_le := h.bytes_le
    have hmessages := h.messages
    have hmessages_le := h.messages_le
    simp only [hp, List.length_nil, if_true, newBytes_of_empty hp] at hu
    cases hu
    refine ⟨hlast, rfl, ?_, ?_, ?_⟩
    · show b.stats.retainedBytes + (0 - b.oldBytes pub) = _
      rw [Map.sum_erase_elim, h.bytes]
      show _ = Map.sum retainedSize b.retained - b.oldBytes pub
      omega
    · show ((b.retained.erase pub.topic).size : Int) ≤ b.limits.maxMessages
      omega
    · show b.stats.retainedBytes + (0 - b.oldBytes pub) ≤ b.limits.maxBytes
      omega
  · have hroom : ¬ b.Exceeds pub := fun he => hover ⟨hp, he⟩
    obtain ⟨hm, hb⟩ := not_or.mp hroom
    have hsum : Map.sum retainedSize
        (b.retained.insert pub.topic { pub with dup := false, retain := true }) =
          b.stats.retainedBytes + (retainedSize pub - b.oldBytes pub) := by
      rw [sum_update, h.bytes]
      omega
    simp only [List.length_eq_zero_iff, hp, if_false, newBytes_of_ne hp] at hu
    cases hu
    refine ⟨hlast, rfl, hsum.symm, not_lt.mp hm, ?_⟩
    show b.stats.retainedBytes + (retainedSize pub - b.oldBytes pub) ≤ b.limits.maxBytes
    rw [← hsum]
    exact not_lt.mp hb

/-- A publication without RETAIN leaves no message. -/
theorem pass {pub : PublishPacket} (hr : pub.retain = false) : b.Accounts (log ++ [pub]) := by
  refine ⟨fun topic => ?_, h.messages, h.bytes, h.messages_le, h.bytes_le⟩
  rw [lastRetained_snoc, h.last, if_neg (by simp [hr])]

/-- A refusal keeps the messages and their counts. -/
theorem refuse {pub : PublishPacket} {e : Err} {b' : Broker}
    (hu : b.updateRetained pub = (.error e, b')) : b'.Accounts log := by
  unfold updateRetained at hu
  split at hu
  · cases hu
    exact ⟨h.last, h.messages, h.bytes, h.messages_le, h.bytes_le⟩
  · cases hu

end Accounts

/-- What a call of `Publish` does. -/
structure Published (pub : PublishPacket) (b : Broker) (res : Except Err Unit)
    (delivered : List (Subscription Nat)) (b' : Broker) : Prop where
  refused_iff : res ≠ .ok () ↔ pub.retain = true ∧ pub.payload ≠ [] ∧ b.Exceeds pub
  refused : ∀ e, res = .error e → e = errRetainedLimit ∧ delivered = [] ∧
    b' = { b with stats := { b.stats with retainedRejections := b.stats.retainedRejections + 1 } }
  accepted : res = .ok () → b'.topics = b.topics ∧ b.topics.Matches pub.topic delivered
  empty : pub.payload = [] → res = .ok ()

/-- A call of `Publish` is refused by `updateRetained`, or passes it and delivers. -/
theorem publish_cases {pub : PublishPacket} {subs delivered : List (Subscription Nat)} {b b' : Broker}
    {res : Except Err Unit} (h : b.publish pub subs = some ((res, delivered), b')) :
    (pub.retain = true ∧ b.updateRetained pub = (res, b') ∧ res = .error errRetainedLimit ∧ delivered = []) ∨
    (res = .ok () ∧ b'.topics.Matches pub.topic delivered ∧
      (pub.retain = true ∧ b.updateRetained pub = (.ok (), b') ∨ pub.retain = false ∧ b' = b)) := by
  unfold publish at h
  cases hr : pub.retain with
  | false =>
    simp only [hr, Bool.false_eq_true, if_false] at h
    split at h
    · rename_i hm
      cases h
      exact .inr ⟨rfl, hm, .inr ⟨rfl, rfl⟩⟩
    · cases h
  | true =>
    rw [hr, if_pos rfl] at h
    rcases hu : b.updateRetained pub with ⟨res', b₁⟩
    rw [hu] at h
    obtain ⟨-, ⟨rfl, -⟩ | ⟨rfl, -⟩⟩ := updateRetained_cases hu
    · cases h
      exact .inl ⟨rfl, rfl, rfl, rfl⟩
    · simp only at h
      split at h
      · rename_i hm
        cases h
        exact .inr ⟨rfl, hm, .inl ⟨rfl, rfl⟩⟩
      · cases h

theorem Accounts.publish {log : List PublishPacket} {b : Broker} (h : b.Accounts log)
    {pub : PublishPacket} {subs delivered : List (Subscription Nat)} {res : Except Err Unit} {b' : Broker}
    (hp : b.publish pub subs = some ((res, delivered), b')) : Published pub b res delivered b' := by
  have hover := h.overLimit_iff pub
  have hiff : res ≠ .ok () ↔ pub.retain = true ∧ b.overLimit pub = true := by
    obtain ⟨hr, hu, rfl, -⟩ | ⟨rfl, -, ⟨hr, hu⟩ | ⟨hr, -⟩⟩ := publish_cases hp
    · unfold updateRetained at hu
      split at hu
      · rename_i ho
        exact ⟨fun _ => ⟨hr, ho⟩, fun _ => nofun⟩
      · cases hu
    · unfold updateRetained at hu
      split at hu
      · cases hu
      · rename_i ho
        exact ⟨fun hn => (hn rfl).elim, fun hn => (ho hn.2).elim⟩
    · exact ⟨fun hn => (hn rfl).elim, fun hn => by rw [hr] at hn; cases hn.1⟩
  refine ⟨by rw [hiff, hover], ?_, ?_, ?_⟩
  · intro e he
    obtain ⟨-, hu, rfl, hd⟩ | ⟨rfl, -⟩ := publish_cases hp
    · cases he
      unfold updateRetained at hu
      split at hu
      · cases hu
        exact ⟨rfl, hd, rfl⟩
      · cases hu
    · cases he
  · intro hk
    obtain ⟨-, -, rfl, -⟩ | ⟨-, hm, hb⟩ := publish_cases hp
    · cases hk
    · obtain ⟨-, hu⟩ | ⟨-, rfl⟩ := hb
      · have ht := (updateRetained_cases hu).1
        exact ⟨ht, ht ▸ hm⟩
      · exact ⟨rfl, hm⟩
  · intro h0
    by_contra hn
    exact (hover.mp (hiff.mp hn).2).1 h0

end Broker

/-- One call. -/
theorem BrokerOp.step_accounts {log : List PublishPacket} {b b' : Broker} {op : BrokerOp}
    (h : b.Accounts log) (hs : op.step b = some b') : b'.Accounts (op.note b log) := by
  cases op with
  | publish pub subs =>
    obtain ⟨⟨⟨res, delivered⟩, b''⟩, hp, rfl⟩ := Option.map_eq_some_iff.mp hs
    have hlog : BrokerOp.note b (.publish pub subs) log = match res with
        | .ok _ => log ++ [pub]
        | .error _ => log := by
      simp only [note, hp]
      cases res <;> rfl
    rw [hlog]
    obtain ⟨-, hu, rfl, -⟩ | ⟨rfl, -, ⟨hr, hu⟩ | ⟨hr, rfl⟩⟩ := Broker.publish_cases hp
    · exact h.refuse hu
    · exact h.update hr hu
    · exact h.pass hr
  | _ =>
    cases hs
    exact ⟨h.last, h.messages, h.bytes, h.messages_le, h.bytes_le⟩

/-- **What the broker retains**, after any sequence of calls on a new broker: the last accepted
publication of every topic, counted exactly and within the limits; and what the next publication does
then. -/
theorem broker_retains (limits : RetainedLimits) (b₀ b : Broker) (ops : List BrokerOp)
    (log : List PublishPacket) (hnew : Broker.newWithLimits limits = .ok b₀)
    (hrun : Sys.run (Sys.record (fun b op => BrokerOp.step b op) BrokerOp.note) (b₀, []) ops = some (b, log)) :
    b.Accounts log ∧ ∀ pub subs res delivered b',
      b.publish pub subs = some ((res, delivered), b') → b.Published pub res delivered b' := by
  have hacc : b.Accounts log := by
    refine Sys.run_invariant (I := fun t : Broker × List PublishPacket => t.1.Accounts t.2)
      (Broker.accounts_new hnew) ?_ hrun
    rintro ⟨b₁, log₁⟩ op ⟨b₂, log₂⟩ h hs
    obtain ⟨hstep, rfl⟩ := Sys.record_eq_some.mp hs
    exact BrokerOp.step_accounts h hstep
  exact ⟨hacc, fun pub subs res delivered b' hp => hacc.publish hp⟩

/-- With room for one message and three bytes: another topic is refused, and a larger value is not. -/
theorem broker_retains_one :
    ∃ b : Broker, b.stats.retainedRejections = 1 ∧
      b.Accounts [⟨[97], [1], true, false, 0, 0⟩, ⟨[97], [2, 3], true, false, 0, 0⟩] := by
  have hrun : (Sys.run (Sys.record (fun b op => BrokerOp.step b op) BrokerOp.note)
      ({ limits := ⟨1, 3⟩ }, []) [.publish ⟨[97], [1], true, false, 0, 0⟩ [],
        .publish ⟨[98], [9], true, false, 0, 0⟩ [], .publish ⟨[97], [2, 3], true, false, 0, 0⟩ []]).map
        (fun t => (t.1.stats.retainedRejections, t.2)) =
      some (1, [⟨[97], [1], true, false, 0, 0⟩, ⟨[97], [2, 3], true, false, 0, 0⟩]) := by
    decide +kernel
  obtain ⟨⟨b, log⟩, hrun, he⟩ := Option.map_eq_some_iff.mp hrun
  obtain ⟨hone, rfl⟩ := Prod.mk.inj he
  exact ⟨b, hone, (broker_retains ⟨1, 3⟩ _ b _ _ rfl hrun).1⟩

end OrbMQ
