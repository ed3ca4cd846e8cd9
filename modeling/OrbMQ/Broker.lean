import OrbMQ.Protocol.Packet
import OrbMQ.Topic.Match

/-!
# The broker (`internal/broker/broker.go`)

The routing tree and the retained messages. Each of the two is replaced as a whole under its own
mutex, and readers load a snapshot, so every function here is one atomic section, except `Publish`:
it updates the retained messages, then loads the tree, then calls `deliver` for every match. The
server's model takes these steps one by one.

The subscribers of the tree are pointers to sessions.
-/

namespace OrbMQ

open Go

def errRetainedLimit : Err := .new "retained limit reached"

structure RetainedLimits where
  maxMessages : Int
  maxBytes : Int
  deriving DecidableEq, Repr

def defaultRetainedLimits : RetainedLimits := ⟨10000, 64 * 2 ^ 20⟩

def RetainedLimits.validate (l : RetainedLimits) : Except Err Unit :=
  if l.maxMessages ≤ 0 ∨ l.maxBytes ≤ 0 then .error (.new "retained limits must be positive") else .ok ()

/-- `Snapshot` of the broker. -/
structure RetainedStats where
  retainedMessages : Int := 0
  retainedBytes : Int := 0
  retainedRejections : UInt64 := 0
  deriving DecidableEq, Repr

structure Broker where
  topics : Tree Nat := .new
  retained : Go.Map Bytes PublishPacket := ∅
  limits : RetainedLimits
  stats : RetainedStats := {}

namespace Broker

def newWithLimits (limits : RetainedLimits) : Except Err Broker := do
  limits.validate
  return { limits }

/-- A subscription of the session `r`, whose ID is `id`. -/
def subscribe (filter : Bytes) (qos : UInt8) (id : Bytes) (r : Nat) (b : Broker) : Broker :=
  { b with topics := b.topics.clone.subscribe filter ⟨id, r, qos⟩ }

def unsubscribe (filter clientID : Bytes) (b : Broker) : Broker :=
  { b with topics := b.topics.clone.unsubscribe filter clientID }

def unsubscribeAll (clientID : Bytes) (b : Broker) : Broker :=
  { b with topics := b.topics.clone.unsubscribeAll clientID }

/-- The retained messages that match, in the order of the range loop over their topics. -/
def retainedMatching (filter : Bytes) (order : List Bytes) (b : Broker) : List PublishPacket :=
  order.filterMap fun topicName => if matchFilter filter topicName then b.retained[topicName]? else none

/-- `len(m.Topic) + len(m.Payload)`. -/
def retainedSize (m : PublishPacket) : Int := m.topic.length + m.payload.length

/-- What the topic of `pub` takes up now, and would take up with `pub`. -/
def oldBytes (pub : PublishPacket) (b : Broker) : Int := b.retained[pub.topic]?.elim 0 retainedSize

def newBytes (pub : PublishPacket) : Int := if pub.payload.length > 0 then retainedSize pub else 0

/-- There is no room for `pub` after the value that it replaces is credited. -/
def overLimit (pub : PublishPacket) (b : Broker) : Bool :=
  pub.payload.length > 0 &&
    ((b.retained[pub.topic]? = none && (b.retained.size : Int) ≥ b.limits.maxMessages) ||
      newBytes pub > b.limits.maxBytes - (b.stats.retainedBytes - b.oldBytes pub))

def updateRetained (pub : PublishPacket) (b : Broker) : Except Err Unit × Broker :=
  if b.overLimit pub then
    (.error errRetainedLimit,
      { b with stats := { b.stats with retainedRejections := b.stats.retainedRejections + 1 } })
  else
    let newMap := if pub.payload.length = 0 then b.retained.erase pub.topic
      else b.retained.insert pub.topic { pub with dup := false, retain := true }
    (.ok (), { b with
      retained := newMap
      stats := { b.stats with
        retainedMessages := newMap.size
        retainedBytes := b.stats.retainedBytes + (newBytes pub - b.oldBytes pub) } })

/-! ## What the functions change -/

variable (b : Broker)

@[simp] theorem subscribe_topics (filter : Bytes) (qos : UInt8) (id : Bytes) (r : Nat) :
    (b.subscribe filter qos id r).topics = b.topics.subscribe filter ⟨id, r, qos⟩ := by
  rw [subscribe, Tree.clone_eq]

@[simp] theorem unsubscribe_topics (filter clientID : Bytes) :
    (b.unsubscribe filter clientID).topics = b.topics.unsubscribe filter clientID := by
  rw [unsubscribe, Tree.clone_eq]

@[simp] theorem unsubscribeAll_topics (clientID : Bytes) :
    (b.unsubscribeAll clientID).topics = b.topics.unsubscribeAll clientID := by
  rw [unsubscribeAll, Tree.clone_eq]

@[simp] theorem subscribe_retained (filter : Bytes) (qos : UInt8) (id : Bytes) (r : Nat) :
    (b.subscribe filter qos id r).retained = b.retained := rfl

@[simp] theorem unsubscribe_retained (filter clientID : Bytes) :
    (b.unsubscribe filter clientID).retained = b.retained := rfl

@[simp] theorem unsubscribeAll_retained (clientID : Bytes) :
    (b.unsubscribeAll clientID).retained = b.retained := rfl

theorem subscribes_retained (subs : List (Bytes × UInt8)) (id : Bytes) (r : Nat) :
    (subs.foldl (fun b sub => b.subscribe sub.1 sub.2 id r) b).retained = b.retained := by
  induction subs generalizing b with
  | nil => rfl
  | cons sub subs ih => exact ih _

theorem unsubscribesAll_retained (ids : List Bytes) :
    (ids.foldl (fun b id => b.unsubscribeAll id) b).retained = b.retained := by
  induction ids generalizing b with
  | nil => rfl
  | cons id ids ih => exact ih _

theorem mem_retainedMatching {b : Broker} {filter : Bytes} {order : List Bytes} {m : PublishPacket}
    (h : m ∈ b.retainedMatching filter order) :
    ∃ topicName, matchFilter filter topicName = true ∧ b.retained[topicName]? = some m := by
  obtain ⟨topicName, -, hm⟩ := List.mem_filterMap.mp h
  split at hm
  · exact ⟨topicName, ‹_›, hm⟩
  · cases hm

/-- An update fails with one error only and changes nothing but a counter; otherwise the topic of
the publication gets its message, or loses it. -/
theorem updateRetained_cases {b b' : Broker} {pub : PublishPacket} {res : Except Err Unit}
    (h : b.updateRetained pub = (res, b')) :
    b'.topics = b.topics ∧
    ((res = .error errRetainedLimit ∧ b'.retained = b.retained) ∨
      (res = .ok () ∧ ∀ t, b'.retained[t]? = if pub.topic = t then
        (if pub.payload.length = 0 then none else some { pub with dup := false, retain := true })
        else b.retained[t]?)) := by
  unfold updateRetained at h
  split at h
  · cases h
    exact ⟨rfl, .inl ⟨rfl, rfl⟩⟩
  · cases h
    refine ⟨rfl, .inr ⟨rfl, fun t => ?_⟩⟩
    by_cases h0 : pub.payload.length = 0
    · simp only [if_pos h0, Map.get_erase]
    · simp only [if_neg h0, Map.get_insert]

/-- An update without an error has room. -/
theorem overLimit_of_ok {b b' : Broker} {pub : PublishPacket} (h : b.updateRetained pub = (.ok (), b')) :
    b.overLimit pub = false := by
  unfold updateRetained at h
  split at h
  · cases h
  · rename_i hroom
    simpa using hroom

/-- The routes after the subscriptions of a session, one after the other: `m` is that to `f`. -/
theorem lookup_subscribes {subs : List (Bytes × UInt8)} (hd : subs.Pairwise fun a b => a.1 ≠ b.1) {f : Bytes}
    {m : Option UInt8} (hm : ∀ q, (f, q) ∈ subs ↔ m = some q) (b : Broker) (id : Bytes) (r : Nat) (c : Bytes) :
    (subs.foldl (fun b sub => b.subscribe sub.1 sub.2 id r) b).topics.lookup f c =
      if c = id then (m.map fun q => ⟨id, r, q⟩).or (b.topics.lookup f c) else b.topics.lookup f c := by
  induction subs generalizing b m with
  | nil =>
    obtain rfl : m = none := Option.eq_none_iff_forall_ne_some.mpr fun q hq => by simpa [hq] using hm q
    simp
  | cons sub subs ih =>
    obtain ⟨f₀, q₀⟩ := sub
    obtain ⟨hne, hd⟩ := List.pairwise_cons.mp hd
    rw [List.foldl_cons]
    by_cases hf : f₀ = f
    · -- No later subscription is to `f`.
      subst hf
      obtain rfl : m = some q₀ := (hm q₀).mp (.head _)
      have hrest : ∀ q, (f₀, q) ∈ subs ↔ (none : Option UInt8) = some q := fun q =>
        ⟨fun h => (hne (f₀, q) h rfl).elim, nofun⟩
      rw [ih hd hrest, subscribe_topics, Tree.lookup_subscribe]
      grind
    · have hrest : ∀ q, (f, q) ∈ subs ↔ m = some q := fun q => by
        rw [← hm q, List.mem_cons]
        exact ⟨.inr, fun h => h.resolve_left fun e => hf (by cases e; rfl)⟩
      rw [ih hd hrest, subscribe_topics, Tree.lookup_subscribe]
      grind

theorem filters_subscribes {subs : List (Bytes × UInt8)} (hf : ∀ sub ∈ subs, IsTopicFilter sub.1) {b : Broker}
    (h : b.topics.Filters) (id : Bytes) (r : Nat) :
    (subs.foldl (fun b sub => b.subscribe sub.1 sub.2 id r) b).topics.Filters := by
  induction subs generalizing b with
  | nil => exact h
  | cons sub subs ih =>
    refine ih (fun x hx => hf x (.tail _ hx)) ?_
    rw [subscribe_topics]
    exact h.subscribe (hf sub (.head _)) _

end Broker

end OrbMQ
